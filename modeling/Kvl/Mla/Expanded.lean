import Kvl.Generate.PromptExact
import Kvl.Mla.NoTrace

/-!
# The expanded attention state

`kvl_mla_decode_bf16` keeps the keys and the values of every head. In exact
arithmetic it computes what the absorbed kernel computes, and its keys and
values are the `kv_b` image of the latent rows of the compressed state.
-/

namespace Kvl

set_option autoImplicit false

open Sums Finset

structure MlaState (F : Type*) where
  capacity : Int
  len : Int
  numHeads : Int
  qkNopeDim : Int
  qkRopeDim : Int
  vHeadDim : Int
  keys : Nat → F
  values : Nat → F

section Model
variable {F D : Type*} (fl : MlaFloats F D) (cfg : MlaConfig F) (w : MlaBF16)

def kvlMlaStateInit (capacity : Int) : Option (MlaState F) :=
  if capacity ≤ 0 ∨ cfg.numHeads ≤ 0 ∨ cfg.qkNopeDim ≤ 0 ∨ cfg.qkRopeDim ≤ 0 ∨
      cfg.vHeadDim ≤ 0 then none
  else some
    { capacity := capacity, len := 0, numHeads := cfg.numHeads, qkNopeDim := cfg.qkNopeDim
      qkRopeDim := cfg.qkRopeDim, vHeadDim := cfg.vHeadDim
      keys := fun _ => fl.zero, values := fun _ => fl.zero }

/-- `QD`. -/
def MlaConfig.queryDim : Nat := (cfg.qkNopeDim + cfg.qkRopeDim).toNat

/-- The row of head `h` of token `j` in the keys and in the values. -/
def MlaConfig.headRow (j h : Nat) : Nat := j * cfg.numHeads.toNat + h

/-- A row of queries or keys: its nope part, then its rope part. -/
def MlaConfig.putQueryDim (i : Nat) (nope rope buf : Nat → F) : Nat → F :=
  let DN := cfg.qkNopeDim.toNat
  writeAt (i * cfg.queryDim + DN) cfg.qkRopeDim.toNat rope (writeAt (i * cfg.queryDim) DN nope buf)

/-- The three copies of one head: the keys of `kvtmp`, the rope row, the values. -/
def MlaState.putHead (position h : Nat) (kvtmp rope : Nat → F) (state : MlaState F) : MlaState F :=
  let DV := cfg.vHeadDim.toNat
  let kvh := readFrom (h * (cfg.qkNopeDim + cfg.vHeadDim).toNat) kvtmp
  { state with
    keys := cfg.putQueryDim (cfg.headRow position h) kvh rope state.keys
    values := writeAt (cfg.headRow position h * DV) DV (readFrom cfg.qkNopeDim.toNat kvh)
      state.values }

/-- `q`: the query of a head with its rope part rotated. -/
def expandedQuery (q : Nat → F) (position : Int) (d : Nat) : F :=
  if d < cfg.qkNopeDim.toNat then q d else ropeQuery fl cfg q position (d - cfg.qkNopeDim.toNat)

def expandedScore (keys q : Nat → F) (h j : Nat) : F :=
  fl.mul (fl.narrow (dotFrom fl fl.zeroD cfg.queryDim q
    (readFrom (cfg.headRow j h * cfg.queryDim) keys))) (softmaxScale fl cfg)

/-- `ho`, the output of head `h`. -/
def expandedHead (keys values q : Nat → F) (n h d : Nat) : F :=
  let scores := expScores fl n (expandedScore fl cfg keys q h)
  let denom := softDenom fl n scores
  fl.narrow ((List.range n).foldl (fun acc j =>
    fl.addD acc (fl.mulD (fl.divD (fl.widen (scores j)) denom)
      (fl.widen (values (cfg.headRow j h * cfg.vHeadDim.toNat + d))))) fl.zeroD)

/-- One round of the loop over the heads: the state and `head_out`. -/
def expandedRound (x : Nat → F) (position : Nat) (kvtmp rope : Nat → F)
    (st : MlaState F × (Nat → F)) (h : Nat) : MlaState F × (Nat → F) :=
  let state := st.1.putHead cfg position h kvtmp rope
  let q := expandedQuery fl cfg (queryOf fl cfg w x h) position
  let DV := cfg.vHeadDim.toNat
  (state, writeAt (h * DV) DV (expandedHead fl cfg state.keys state.values q (position + 1) h) st.2)

/-- `mem` is the fresh `head_out`. -/
def kvlMlaDecodeBf16 (mem : Nat → F) (base : Nat) (x : Nat → F) (position : Int)
    (state : MlaState F) (out : Nat → F) : Option ((Nat → F) × MlaState F) :=
  if position ≠ state.len ∨ position < 0 ∨ position ≥ state.capacity ∨
      state.numHeads ≠ cfg.numHeads ∨ state.qkNopeDim ≠ cfg.qkNopeDim ∨
      state.qkRopeDim ≠ cfg.qkRopeDim ∨ state.vHeadDim ≠ cfg.vHeadDim then none
  else if cfg.hiddenSize ≤ 0 ∨ cfg.kvLoraRank ≤ 0 ∨ cfg.qkRopeDim ≤ 0 ∨ cfg.qkRopeDim % 2 ≠ 0 ∨
      thetaRefused fl cfg = true then none
  else
    let kvtmp := bf16Row fl.toMoeFloats (latentOf fl cfg w x) w.kvBProj cfg.kvLoraRank
    let rope := ropeOf fl cfg w x position
    let (state, headOut) := (List.range cfg.numHeads.toNat).foldl
      (expandedRound fl cfg w x position.toNat kvtmp rope) (state, mem)
    let out := kvlMatvecBf16 fl.toMoeFloats base headOut w.oProj (cfg.numHeads * cfg.vHeadDim)
      cfg.hiddenSize out
    some (out, { state with len := position + 1 })

end Model

section Rows
variable {F : Type*}

/-- Two writes side by side are one. -/
theorem writeAt_writeAt_append {base n k : Nat} {f g buf : Nat → F} :
    writeAt (base + n) k g (writeAt base n f buf) =
      writeAt base (n + k) (fun i => if i < n then f i else g (i - n)) buf := by
  funext i
  unfold writeAt
  by_cases hlow : base ≤ i ∧ i < base + n
  · rw [if_neg (by omega), if_pos hlow, if_pos (by omega)]
    dsimp only
    rw [if_pos (by omega)]
  · by_cases hhigh : base + n ≤ i ∧ i < base + n + k
    · rw [if_pos hhigh, if_pos (by omega)]
      dsimp only
      rw [if_neg (by omega)]
      congr 1
      omega
    · rw [if_neg hhigh, if_neg hlow, if_neg (by omega)]

variable {cfg : MlaConfig F}

theorem MlaConfig.queryDim_eq (hDN : 0 < cfg.qkNopeDim) (hDR : 0 < cfg.qkRopeDim) :
    cfg.queryDim = cfg.qkNopeDim.toNat + cfg.qkRopeDim.toNat :=
  Int.toNat_add (Int.le_of_lt hDN) (Int.le_of_lt hDR)

/-- Different heads or tokens have different rows. -/
theorem MlaConfig.headRow_ne {j j' h h' : Nat} (hh : h < cfg.numHeads.toNat)
    (hh' : h' < cfg.numHeads.toNat) (hne : j ≠ j' ∨ h ≠ h') :
    cfg.headRow j h ≠ cfg.headRow j' h' := by
  unfold MlaConfig.headRow
  intro heq
  have hmod := congrArg (· % cfg.numHeads.toNat) heq
  simp only [Nat.mul_add_mod_of_lt hh, Nat.mul_add_mod_of_lt hh'] at hmod
  subst hmod
  have hmul : j * cfg.numHeads.toNat = j' * cfg.numHeads.toNat := by omega
  have hj := Nat.eq_of_mul_eq_mul_right (Nat.zero_lt_of_lt hh) hmul
  omega

theorem putQueryDim_eq (hDN : 0 < cfg.qkNopeDim) (hDR : 0 < cfg.qkRopeDim) (i : Nat)
    (nope rope buf : Nat → F) :
    cfg.putQueryDim i nope rope buf = writeAt (i * cfg.queryDim) cfg.queryDim
      (fun d => if d < cfg.qkNopeDim.toNat then nope d else rope (d - cfg.qkNopeDim.toNat)) buf := by
  have happend := @writeAt_writeAt_append F (i * cfg.queryDim) cfg.qkNopeDim.toNat
    cfg.qkRopeDim.toNat nope rope buf
  rw [← MlaConfig.queryDim_eq hDN hDR] at happend
  exact happend

end Rows

section Image
variable {K : Type*} [Field K] (fl : MlaFloats K K) (cfg : MlaConfig K) (w : MlaBF16)

/-- The keys and the values of a head of a token are the `kv_b` image of its latent row,
and the keys end with its rope row. -/
structure HeadImage (state : MlaState K) (cs : MlaCompressedState K) (j h : Nat) : Prop where
  keys : ∀ d < cfg.qkNopeDim.toNat,
    state.keys (cfg.headRow j h * cfg.queryDim + d) =
      ∑ r ∈ range cfg.kvLoraRank.toNat,
        kvbRow (exactFloats fl) cfg w h d r * cs.latent (j * cfg.kvLoraRank.toNat + r)
  rope : ∀ d < cfg.qkRopeDim.toNat,
    state.keys (cfg.headRow j h * cfg.queryDim + (cfg.qkNopeDim.toNat + d)) =
      cs.rope (j * cfg.qkRopeDim.toNat + d)
  values : ∀ d < cfg.vHeadDim.toNat,
    state.values (cfg.headRow j h * cfg.vHeadDim.toNat + d) =
      ∑ r ∈ range cfg.kvLoraRank.toNat,
        kvbRow (exactFloats fl) cfg w h (cfg.qkNopeDim.toNat + d) r *
          cs.latent (j * cfg.kvLoraRank.toNat + r)

variable {fl cfg w} {state : MlaState K} {cs : MlaCompressedState K}

/-- The scores agree wherever the image does. -/
theorem expandedScore_eq (hDN : 0 < cfg.qkNopeDim) (hDR : 0 < cfg.qkRopeDim) {h j : Nat}
    (himage : HeadImage fl cfg w state cs j h) (q : Nat → K) (position : Int) :
    expandedScore (exactFloats fl) cfg state.keys (expandedQuery (exactFloats fl) cfg q position) h j =
      decodeScore (exactFloats fl) cfg w cs q position h j := by
  have hsplit : dotFrom (exactFloats fl) (exactFloats fl).zeroD cfg.queryDim
      (expandedQuery (exactFloats fl) cfg q position)
      (readFrom (cfg.headRow j h * cfg.queryDim) state.keys) =
      dotFrom (exactFloats fl) (dotFrom (exactFloats fl) (exactFloats fl).zeroD
        cfg.kvLoraRank.toNat (absorbedQuery (exactFloats fl) cfg w q h)
          (readFrom (j * cfg.kvLoraRank.toNat) cs.latent)) cfg.qkRopeDim.toNat
        (ropeQuery (exactFloats fl) cfg q position)
        (readFrom (j * cfg.qkRopeDim.toNat) cs.rope) := by
    have hnope : ∑ d ∈ range cfg.qkNopeDim.toNat,
        expandedQuery (exactFloats fl) cfg q position d *
          readFrom (cfg.headRow j h * cfg.queryDim) state.keys d =
        ∑ r ∈ range cfg.kvLoraRank.toNat, absorbedQuery (exactFloats fl) cfg w q h r *
          readFrom (j * cfg.kvLoraRank.toNat) cs.latent r := by
      calc ∑ d ∈ range cfg.qkNopeDim.toNat, expandedQuery (exactFloats fl) cfg q position d *
            readFrom (cfg.headRow j h * cfg.queryDim) state.keys d
          = ∑ d ∈ range cfg.qkNopeDim.toNat, q d * ∑ r ∈ range cfg.kvLoraRank.toNat,
              kvbRow (exactFloats fl) cfg w h d r *
                readFrom (j * cfg.kvLoraRank.toNat) cs.latent r := by
            apply sum_congr rfl
            intro d hd
            have hlt := mem_range.mp hd
            unfold expandedQuery readFrom
            rw [if_pos hlt, himage.keys d hlt]
        _ = ∑ r ∈ range cfg.kvLoraRank.toNat, (∑ d ∈ range cfg.qkNopeDim.toNat,
              kvbRow (exactFloats fl) cfg w h d r * q d) *
                readFrom (j * cfg.kvLoraRank.toNat) cs.latent r :=
            (contract_left _ _ _ _ _).symm
        _ = ∑ r ∈ range cfg.kvLoraRank.toNat, absorbedQuery (exactFloats fl) cfg w q h r *
              readFrom (j * cfg.kvLoraRank.toNat) cs.latent r := by
            apply sum_congr rfl
            intro r _
            rw [absorbedQuery_exact]
    have hrope : ∑ d ∈ range cfg.qkRopeDim.toNat,
        expandedQuery (exactFloats fl) cfg q position (cfg.qkNopeDim.toNat + d) *
          readFrom (cfg.headRow j h * cfg.queryDim) state.keys (cfg.qkNopeDim.toNat + d) =
        ∑ d ∈ range cfg.qkRopeDim.toNat, ropeQuery (exactFloats fl) cfg q position d *
          readFrom (j * cfg.qkRopeDim.toNat) cs.rope d := by
      apply sum_congr rfl
      intro d hd
      unfold expandedQuery readFrom
      rw [if_neg (by omega), himage.rope d (mem_range.mp hd), Nat.add_sub_cancel_left]
    rw [dotFrom_exact, dotFrom_exact, dotFrom_exact, MlaConfig.queryDim_eq hDN hDR, sum_range_add,
      ← MlaConfig.queryDim_eq hDN hDR, hnope, hrope]
    exact (add_assoc _ _ _).symm
  unfold expandedScore decodeScore
  dsimp only
  rw [hsplit]

theorem expandedHead_eq (hDN : 0 < cfg.qkNopeDim) (hDR : 0 < cfg.qkRopeDim) {h p : Nat}
    (himage : ∀ j < p + 1, HeadImage fl cfg w state cs j h) (x : Nat → K) {d : Nat}
    (hd : d < cfg.vHeadDim.toNat) :
    expandedHead (exactFloats fl) cfg state.keys state.values
        (expandedQuery (exactFloats fl) cfg (queryOf (exactFloats fl) cfg w x h) p) (p + 1) h d =
      decodeHead (exactFloats fl) cfg w cs x p h d := by
  have hscore : ∀ j < p + 1, expandedScore (exactFloats fl) cfg state.keys
      (expandedQuery (exactFloats fl) cfg (queryOf (exactFloats fl) cfg w x h) p) h j =
      decodeScore (exactFloats fl) cfg w cs (queryOf (exactFloats fl) cfg w x h) p h j :=
    fun j hj => expandedScore_eq hDN hDR (himage j hj) _ _
  have hexp := @expScores_congr _ _ (exactFloats fl) _ _ _ hscore
  let weight : Nat → K := fun j =>
    expScores (exactFloats fl) (p + 1)
        (decodeScore (exactFloats fl) cfg w cs (queryOf (exactFloats fl) cfg w x h) p h) j /
      softDenom (exactFloats fl) (p + 1) (expScores (exactFloats fl) (p + 1)
        (decodeScore (exactFloats fl) cfg w cs (queryOf (exactFloats fl) cfg w x h) p h))
  have hexpanded : expandedHead (exactFloats fl) cfg state.keys state.values
      (expandedQuery (exactFloats fl) cfg (queryOf (exactFloats fl) cfg w x h) p) (p + 1) h d =
      ∑ j ∈ range (p + 1), weight j * ∑ r ∈ range cfg.kvLoraRank.toNat,
        kvbRow (exactFloats fl) cfg w h (cfg.qkNopeDim.toNat + d) r *
          cs.latent (j * cfg.kvLoraRank.toNat + r) := by
    have hsum := foldl_range_add (fun j => weight j * ∑ r ∈ range cfg.kvLoraRank.toNat,
      kvbRow (exactFloats fl) cfg w h (cfg.qkNopeDim.toNat + d) r *
        cs.latent (j * cfg.kvLoraRank.toNat + r)) 0 (p + 1)
    rw [zero_add] at hsum
    rw [← hsum]
    unfold expandedHead
    dsimp only
    rw [softDenom_congr hexp]
    change (List.range (p + 1)).foldl _ (0 : K) = _
    apply foldl_range_congr
    intro acc j hj
    rw [hexp j hj, (himage j hj).values d hd]
    rfl
  have hmix : ∀ r < cfg.kvLoraRank.toNat, decodeMix (exactFloats fl) cfg cs
      (decodeScore (exactFloats fl) cfg w cs (queryOf (exactFloats fl) cfg w x h) p h) (p + 1) r =
      ∑ j ∈ range (p + 1), weight j * cs.latent (j * cfg.kvLoraRank.toNat + r) := by
    intro r _
    have hsum := foldl_range_add
      (fun j => weight j * cs.latent (j * cfg.kvLoraRank.toNat + r)) 0 (p + 1)
    rw [zero_add] at hsum
    exact hsum
  rw [hexpanded, ← contract_weights]
  unfold decodeHead
  dsimp only
  change _ = dotFrom (exactFloats fl) (0 : K) _ _ (decodeMix (exactFloats fl) cfg cs _ (p + 1))
  rw [dotFrom_congr (fun _ _ => rfl) hmix, dotFrom_exact, zero_add]

/-- The rows of another head or another token stay. -/
theorem putHead_image_other (hDN : 0 < cfg.qkNopeDim) (hDR : 0 < cfg.qkRopeDim) {p n j h : Nat}
    {kvtmp rope : Nat → K} (hhead : h < cfg.numHeads.toNat) (hn : n < cfg.numHeads.toNat)
    (hne : j ≠ p ∨ h ≠ n) (himage : HeadImage fl cfg w state cs j h) :
    HeadImage fl cfg w (state.putHead cfg p n kvtmp rope) cs j h := by
  have hrow := MlaConfig.headRow_ne hhead hn hne
  have hkeys := rowAt_eq_iff.mp (@rowAt_writeAt_of_ne _ cfg.queryDim _ _
    (fun i => if i < cfg.qkNopeDim.toNat then
      readFrom (n * (cfg.qkNopeDim + cfg.vHeadDim).toNat) kvtmp i
      else rope (i - cfg.qkNopeDim.toNat)) state.keys hrow)
  rw [← putQueryDim_eq hDN hDR] at hkeys
  have hvalues := rowAt_eq_iff.mp (@rowAt_writeAt_of_ne _ cfg.vHeadDim.toNat _ _
    (readFrom cfg.qkNopeDim.toNat (readFrom (n * (cfg.qkNopeDim + cfg.vHeadDim).toNat) kvtmp))
    state.values hrow)
  have hdim := MlaConfig.queryDim_eq hDN hDR
  constructor
  · intro d hd
    exact (hkeys d (by omega)).trans (himage.keys d hd)
  · intro d hd
    exact (hkeys (cfg.qkNopeDim.toNat + d) (by omega)).trans (himage.rope d hd)
  · intro d hd
    exact (hvalues d hd).trans (himage.values d hd)

/-- `kv_b` applied to the latent row of a token. -/
theorem kvtmp_exact (x : Nat → K) (h i : Nat) :
    readFrom (h * (cfg.qkNopeDim + cfg.vHeadDim).toNat)
        (bf16Row (exactFloats fl).toMoeFloats (latentOf (exactFloats fl) cfg w x) w.kvBProj
          cfg.kvLoraRank) i =
      ∑ r ∈ range cfg.kvLoraRank.toNat,
        kvbRow (exactFloats fl) cfg w h i r * latentOf (exactFloats fl) cfg w x r := by
  unfold readFrom
  rw [bf16Row_exact]
  rfl

/-- The three copies of a head next to the two rows of its token. -/
theorem putHead_image_self (hDN : 0 < cfg.qkNopeDim) (hDR : 0 < cfg.qkRopeDim) (p h : Nat)
    (x : Nat → K) :
    HeadImage fl cfg w
      (state.putHead cfg p h (bf16Row (exactFloats fl).toMoeFloats
        (latentOf (exactFloats fl) cfg w x) w.kvBProj cfg.kvLoraRank)
        (ropeOf (exactFloats fl) cfg w x p))
      (cs.put (exactFloats fl) cfg w p x) p h := by
  have hdim := MlaConfig.queryDim_eq hDN hDR
  have hlatent : ∀ r < cfg.kvLoraRank.toNat,
      (cs.put (exactFloats fl) cfg w p x).latent (p * cfg.kvLoraRank.toNat + r) =
        latentOf (exactFloats fl) cfg w x r :=
    fun r hr => readFrom_writeAt hr
  constructor
  · intro d hd
    unfold MlaState.putHead
    dsimp only
    rw [putQueryDim_eq hDN hDR]
    refine (readFrom_writeAt (by omega : d < cfg.queryDim)).trans ?_
    rw [if_pos hd, kvtmp_exact]
    apply sum_congr rfl
    intro r hr
    rw [hlatent r (mem_range.mp hr)]
  · intro d hd
    unfold MlaState.putHead
    dsimp only
    rw [putQueryDim_eq hDN hDR]
    refine (readFrom_writeAt (by omega : cfg.qkNopeDim.toNat + d < cfg.queryDim)).trans ?_
    rw [if_neg (by omega), Nat.add_sub_cancel_left]
    exact (readFrom_writeAt hd).symm
  · intro d hd
    refine (readFrom_writeAt hd).trans ?_
    rw [readFrom, kvtmp_exact]
    apply sum_congr rfl
    intro r hr
    rw [hlatent r (mem_range.mp hr)]

/-- A row written at `p` keeps the image of the tokens before it. -/
theorem HeadImage.put {p j h : Nat} (x : Nat → K) (hj : j < p)
    (himage : HeadImage fl cfg w state cs j h) :
    HeadImage fl cfg w state (cs.put (exactFloats fl) cfg w p x) j h := by
  have hframe := @put_frame _ _ (exactFloats fl) cfg w cs p x
  have hsum : ∀ i, ∑ r ∈ range cfg.kvLoraRank.toNat, kvbRow (exactFloats fl) cfg w h i r *
        (cs.put (exactFloats fl) cfg w p x).latent (j * cfg.kvLoraRank.toNat + r) =
      ∑ r ∈ range cfg.kvLoraRank.toNat, kvbRow (exactFloats fl) cfg w h i r *
        cs.latent (j * cfg.kvLoraRank.toNat + r) := by
    intro i
    apply sum_congr rfl
    intro r hr
    rw [hframe.latent _ (row_offset_lt hj (mem_range.mp hr))]
  constructor
  · intro d hd
    rw [hsum]
    exact himage.keys d hd
  · intro d hd
    rw [hframe.rope _ (row_offset_lt hj hd)]
    exact himage.rope d hd
  · intro d hd
    rw [hsum]
    exact himage.values d hd

variable (fl cfg w) in
/-- The loop over the heads after `n` of them. -/
structure HeadsDone (start : MlaState K) (cs : MlaCompressedState K) (x : Nat → K) (p n : Nat)
    (st : MlaState K × (Nat → K)) : Prop where
  shape : { st.1 with keys := start.keys, values := start.values } = start
  before : ∀ j < p, ∀ h < cfg.numHeads.toNat, HeadImage fl cfg w st.1 cs j h
  current : ∀ h < n, HeadImage fl cfg w st.1 cs p h
  heads : ∀ h < n, rowAt cfg.vHeadDim.toNat h st.2 =
    row cfg.vHeadDim.toNat (decodeHead (exactFloats fl) cfg w cs x p h)

theorem HeadsDone.round (hDN : 0 < cfg.qkNopeDim) (hDR : 0 < cfg.qkRopeDim)
    {start : MlaState K} {x : Nat → K} {p n : Nat} {st : MlaState K × (Nat → K)}
    (hn : n < cfg.numHeads.toNat)
    (hdone : HeadsDone fl cfg w start (cs.put (exactFloats fl) cfg w p x) x p n st) :
    HeadsDone fl cfg w start (cs.put (exactFloats fl) cfg w p x) x p (n + 1)
      (expandedRound (exactFloats fl) cfg w x p
        (bf16Row (exactFloats fl).toMoeFloats (latentOf (exactFloats fl) cfg w x) w.kvBProj
          cfg.kvLoraRank) (ropeOf (exactFloats fl) cfg w x p) st n) := by
  have hbefore : ∀ j < p, ∀ h < cfg.numHeads.toNat, HeadImage fl cfg w
      (st.1.putHead cfg p n (bf16Row (exactFloats fl).toMoeFloats
        (latentOf (exactFloats fl) cfg w x) w.kvBProj cfg.kvLoraRank)
        (ropeOf (exactFloats fl) cfg w x p)) (cs.put (exactFloats fl) cfg w p x) j h :=
    fun j hj h hh => putHead_image_other hDN hDR hh hn (.inl (Nat.ne_of_lt hj))
      (hdone.before j hj h hh)
  have hcurrent : ∀ h < n + 1, HeadImage fl cfg w
      (st.1.putHead cfg p n (bf16Row (exactFloats fl).toMoeFloats
        (latentOf (exactFloats fl) cfg w x) w.kvBProj cfg.kvLoraRank)
        (ropeOf (exactFloats fl) cfg w x p)) (cs.put (exactFloats fl) cfg w p x) p h := by
    intro h hh
    rcases Nat.lt_succ_iff_lt_or_eq.mp hh with hlt | heq
    · exact putHead_image_other hDN hDR (hlt.trans hn) hn (.inr (Nat.ne_of_lt hlt))
        (hdone.current h hlt)
    · subst heq
      exact putHead_image_self hDN hDR p h x
  constructor
  · exact hdone.shape
  · exact hbefore
  · exact hcurrent
  · intro h hh
    rcases Nat.lt_succ_iff_lt_or_eq.mp hh with hlt | heq
    · exact (rowAt_writeAt_of_ne (Nat.ne_of_lt hlt)).trans (hdone.heads h hlt)
    · subst heq
      refine rowAt_writeAt_self.trans (row_congr fun d hd => ?_)
      refine expandedHead_eq hDN hDR (fun j hj => ?_) x hd
      rcases Nat.lt_succ_iff_lt_or_eq.mp hj with hjlt | hjeq
      · exact hbefore j hjlt h hn
      · subst hjeq
        exact hcurrent h hh

theorem HeadsDone.loop (hDN : 0 < cfg.qkNopeDim) (hDR : 0 < cfg.qkRopeDim) {mem x : Nat → K}
    {p n : Nat} (hn : n ≤ cfg.numHeads.toNat)
    (himage : ∀ j < p, ∀ h < cfg.numHeads.toNat, HeadImage fl cfg w state cs j h) :
    HeadsDone fl cfg w state (cs.put (exactFloats fl) cfg w p x) x p n
      ((List.range n).foldl (expandedRound (exactFloats fl) cfg w x p
        (bf16Row (exactFloats fl).toMoeFloats (latentOf (exactFloats fl) cfg w x) w.kvBProj
          cfg.kvLoraRank) (ropeOf (exactFloats fl) cfg w x p)) (state, mem)) := by
  induction n with
  | zero =>
    exact ⟨rfl, fun j hj h hh => (himage j hj h hh).put x hj,
      fun h hh => absurd hh (Nat.not_lt_zero h), fun h hh => absurd hh (Nat.not_lt_zero h)⟩
  | succ n ih =>
    rw [List.range_succ, List.foldl_append]
    exact (ih (Nat.le_of_succ_le hn)).round hDN hDR hn

/-- The output projection reads the rows of the heads. -/
theorem bf16Row_of_heads {F D : Type*} {fl : MlaFloats F D} {cfg : MlaConfig F} {w : MlaBF16}
    (hNH : 0 < cfg.numHeads) (hDV : 0 < cfg.vHeadDim) {headOuts : Nat → F} {head : Nat → Nat → F}
    (hheads : ∀ h < cfg.numHeads.toNat, rowAt cfg.vHeadDim.toNat h headOuts =
      row cfg.vHeadDim.toNat (head h)) :
    bf16Row fl.toMoeFloats headOuts w.oProj (cfg.numHeads * cfg.vHeadDim) =
      bf16Row fl.toMoeFloats (headOut cfg head) w.oProj (cfg.numHeads * cfg.vHeadDim) := by
  have hDVpos : 0 < cfg.vHeadDim.toNat := by omega
  funext o
  apply bf16Row_congr
  intro k hk
  rw [Int.toNat_mul (Int.le_of_lt hNH) (Int.le_of_lt hDV)] at hk
  have hh : k / cfg.vHeadDim.toNat < cfg.numHeads.toNat := by
    rw [Nat.div_lt_iff_lt_mul hDVpos]
    exact hk
  have hrow := row_eq_iff.mp (hheads _ hh) _ (Nat.mod_lt k hDVpos)
  unfold readFrom at hrow
  rw [Nat.div_add_mod'] at hrow
  exact hrow

variable (fl cfg w) in
/-- A pair of states that the two kernels reach with the same tokens. -/
structure StateImage (state : MlaState K) (cs : MlaCompressedState K) : Prop where
  capacity : state.capacity = cs.capacity
  len : state.len = cs.len
  rank : cs.kvLoraRank = cfg.kvLoraRank
  compressedRope : cs.qkRopeDim = cfg.qkRopeDim
  heads : state.numHeads = cfg.numHeads
  nopeDim : state.qkNopeDim = cfg.qkNopeDim
  ropeDim : state.qkRopeDim = cfg.qkRopeDim
  valueDim : state.vHeadDim = cfg.vHeadDim
  rows : ∀ j < state.len.toNat, ∀ h < cfg.numHeads.toNat, HeadImage fl cfg w state cs j h

theorem StateImage.expanded_accepts {base : Nat} {mem x out : Nat → K} {position : Int}
    (himage : StateImage fl cfg w state cs)
    (haccepts : Accepts (exactFloats fl) cfg cs position) :
    ∃ state', kvlMlaDecodeBf16 (exactFloats fl) cfg w mem base x position state out =
        some (writeAt base cfg.hiddenSize.toNat (attnOf (exactFloats fl) cfg w
          (cs.put (exactFloats fl) cfg w position.toNat x) x position) out, state') ∧
      StateImage fl cfg w state' (cs.append (exactFloats fl) cfg w x position) := by
  obtain ⟨hH, hNH, hDN, hDR, heven, hDV, hR, htheta⟩ := haccepts.ok
  have hlen := haccepts.len
  have hnonneg := haccepts.nonneg
  have hroom := haccepts.room
  have hcapacity := himage.capacity
  have hsame := himage.len
  have hguard : ¬ (position ≠ state.len ∨ position < 0 ∨ position ≥ state.capacity ∨
      state.numHeads ≠ cfg.numHeads ∨ state.qkNopeDim ≠ cfg.qkNopeDim ∨
      state.qkRopeDim ≠ cfg.qkRopeDim ∨ state.vHeadDim ≠ cfg.vHeadDim) := by
    have := himage.heads
    have := himage.nopeDim
    have := himage.ropeDim
    have := himage.valueDim
    omega
  have hdims : ¬ (cfg.hiddenSize ≤ 0 ∨ cfg.kvLoraRank ≤ 0 ∨ cfg.qkRopeDim ≤ 0 ∨
      cfg.qkRopeDim % 2 ≠ 0 ∨ thetaRefused (exactFloats fl) cfg = true) := by
    rw [htheta]
    simp only [Bool.false_eq_true, or_false]
    omega
  have hposition : ((position.toNat : Nat) : Int) = position := Int.toNat_of_nonneg hnonneg
  have hrows : ∀ j < position.toNat, ∀ h < cfg.numHeads.toNat,
      HeadImage fl cfg w state cs j h := by
    intro j hj
    exact himage.rows j (by omega)
  have hdone := @HeadsDone.loop K _ fl cfg w state cs hDN hDR mem x position.toNat
    cfg.numHeads.toNat (Nat.le_refl _) hrows
  unfold kvlMlaDecodeBf16
  rw [if_neg hguard, if_neg hdims]
  dsimp only
  rw [hposition] at hdone
  generalize (List.range cfg.numHeads.toNat).foldl _ (state, mem) = st at hdone ⊢
  have hshape := hdone.shape
  refine ⟨{ st.1 with len := position + 1 }, ?_, ?_⟩
  · have hout := @bf16Row_of_heads _ _ (exactFloats fl) _ w hNH hDV _ _ hdone.heads
    rw [hposition] at hout
    unfold attnOf
    rw [← hout]
    rfl
  · constructor
    · exact (congrArg MlaState.capacity hshape).trans hcapacity
    · rfl
    · exact himage.rank
    · exact himage.compressedRope
    · exact (congrArg MlaState.numHeads hshape).trans himage.heads
    · exact (congrArg MlaState.qkNopeDim hshape).trans himage.nopeDim
    · exact (congrArg MlaState.qkRopeDim hshape).trans himage.ropeDim
    · exact (congrArg MlaState.vHeadDim hshape).trans himage.valueDim
    · intro j hj h hh
      have hkeep : ∀ j, HeadImage fl cfg w st.1
          (cs.put (exactFloats fl) cfg w position.toNat x) j h →
          HeadImage fl cfg w { st.1 with len := position + 1 }
            (cs.append (exactFloats fl) cfg w x position) j h :=
        fun j himage => ⟨himage.keys, himage.rope, himage.values⟩
      change j < (position + 1).toNat at hj
      rcases Nat.lt_or_ge j position.toNat with hlt | hge
      · exact hkeep j (hdone.before j hlt h hh)
      · have hjeq : j = position.toNat := by omega
        subst hjeq
        exact hkeep _ (hdone.current h hh)

theorem StateImage.expanded_refuses {base : Nat} {mem x out : Nat → K} {position : Int}
    (hNH : 0 < cfg.numHeads) (hDN : 0 < cfg.qkNopeDim) (hDV : 0 < cfg.vHeadDim)
    (himage : StateImage fl cfg w state cs)
    (hrefuses : ¬ Accepts (exactFloats fl) cfg cs position) :
    kvlMlaDecodeBf16 (exactFloats fl) cfg w mem base x position state out = none := by
  unfold kvlMlaDecodeBf16
  split
  · rfl
  rename_i hguard
  split
  · rfl
  rename_i hdims
  exfalso
  apply hrefuses
  have hcapacity := himage.capacity
  have hsame := himage.len
  have htheta : thetaRefused (exactFloats fl) cfg = false :=
    Bool.eq_false_iff.mpr fun h => hdims (.inr (.inr (.inr (.inr h))))
  refine ⟨by omega, by omega, by omega, himage.rank, himage.compressedRope, ?_⟩
  exact ⟨by omega, hNH, hDN, by omega, by omega, hDV, by omega, htheta⟩

end Image

/-- A call of a decoder: its token, where its output goes and the `head_out` it gets. -/
structure DecodeCall (F : Type*) where
  x : Nat → F
  position : Int
  out : Nat → F
  base : Nat
  mem : Nat → F

/-- The outputs of the calls one after another; a call that fails leaves the state. -/
def decodeCalls {F σ : Type*} (decode : DecodeCall F → σ → Option ((Nat → F) × σ)) :
    σ → List (DecodeCall F) → List (Option (Nat → F)) × σ
  | s, [] => ([], s)
  | s, call :: calls =>
    match decode call s with
    | some (out, s') => (some out :: (decodeCalls decode s' calls).1, (decodeCalls decode s' calls).2)
    | none => (none :: (decodeCalls decode s calls).1, (decodeCalls decode s calls).2)

section Calls
variable {F D : Type*} (fl : MlaFloats F D) (cfg : MlaConfig F) (w : MlaBF16)

def expandedCall (call : DecodeCall F) (state : MlaState F) : Option ((Nat → F) × MlaState F) :=
  kvlMlaDecodeBf16 fl cfg w call.mem call.base call.x call.position state call.out

def compressedCall (call : DecodeCall F) (state : MlaCompressedState F) :
    Option ((Nat → F) × MlaCompressedState F) :=
  kvlMlaDecodeCompressedBf16 fl cfg w call.base call.x call.position state call.out

end Calls

section Run
variable {K : Type*} [Field K] {fl : MlaFloats K K} {cfg : MlaConfig K} {w : MlaBF16}
  {capacity : Int}

theorem StateImage.calls (hNH : 0 < cfg.numHeads) (hDN : 0 < cfg.qkNopeDim)
    (hDV : 0 < cfg.vHeadDim) {state : MlaState K} {cs : MlaCompressedState K}
    (calls : List (DecodeCall K)) (himage : StateImage fl cfg w state cs) :
    (decodeCalls (expandedCall (exactFloats fl) cfg w) state calls).1 =
        (decodeCalls (compressedCall (exactFloats fl) cfg w) cs calls).1 ∧
      StateImage fl cfg w (decodeCalls (expandedCall (exactFloats fl) cfg w) state calls).2
        (decodeCalls (compressedCall (exactFloats fl) cfg w) cs calls).2 := by
  induction calls generalizing state cs with
  | nil => exact ⟨rfl, himage⟩
  | cons call calls ih =>
    unfold decodeCalls
    by_cases haccepts : Accepts (exactFloats fl) cfg cs call.position
    · obtain ⟨state', hexpanded, hnext⟩ :=
        @StateImage.expanded_accepts K _ fl cfg w state cs call.base call.mem call.x call.out _
          himage haccepts
      have hcompressed : compressedCall (exactFloats fl) cfg w call cs = _ :=
        decode_accepts haccepts
      rw [show expandedCall (exactFloats fl) cfg w call state = _ from hexpanded, hcompressed]
      obtain ⟨houts, hlast⟩ := ih hnext
      exact ⟨congrArg _ houts, hlast⟩
    · have hexpanded : expandedCall (exactFloats fl) cfg w call state = none :=
        himage.expanded_refuses hNH hDN hDV haccepts
      have hcompressed : compressedCall (exactFloats fl) cfg w call cs = none :=
        decode_refuses haccepts
      rw [hexpanded, hcompressed]
      obtain ⟨houts, hlast⟩ := ih himage
      exact ⟨congrArg _ houts, hlast⟩

/-- Two empty states. -/
theorem StateImage.start {state : MlaState K} {cs : MlaCompressedState K}
    (hexpanded : kvlMlaStateInit (exactFloats fl) cfg capacity = some state)
    (hcompressed : kvlMlaCompressedStateInit (exactFloats fl) cfg capacity = some cs) :
    StateImage fl cfg w state cs ∧ cs.capacity = capacity ∧ cs.len = 0 := by
  unfold kvlMlaStateInit at hexpanded
  split at hexpanded
  · simp at hexpanded
  unfold kvlMlaCompressedStateInit at hcompressed
  split at hcompressed
  · simp at hcompressed
  obtain rfl := Option.some.inj hexpanded
  obtain rfl := Option.some.inj hcompressed
  refine ⟨⟨rfl, rfl, rfl, rfl, rfl, rfl, rfl, rfl, ?_⟩, rfl, rfl⟩
  intro j hj
  exact absurd hj (Nat.not_lt_zero j)

theorem kvlMlaStateInit_dims {state : MlaState K}
    (hexpanded : kvlMlaStateInit (exactFloats fl) cfg capacity = some state) :
    0 < cfg.numHeads ∧ 0 < cfg.qkNopeDim ∧ 0 < cfg.vHeadDim := by
  unfold kvlMlaStateInit at hexpanded
  split at hexpanded
  · simp at hexpanded
  · omega

/-- Calls in order within the capacity all go through. -/
theorem compressedCalls_isSome {F D : Type*} {fl : MlaFloats F D} {cfg : MlaConfig F}
    (hok : cfg.Ok fl) {cs : MlaCompressedState F} (hrank : cs.kvLoraRank = cfg.kvLoraRank)
    (hrope : cs.qkRopeDim = cfg.qkRopeDim) (hlen : 0 ≤ cs.len) (calls : List (DecodeCall F))
    (hroom : cs.len + calls.length ≤ cs.capacity)
    (hcalls : ∀ i (hi : i < calls.length), calls[i].position = cs.len + i) :
    ∀ out ∈ (decodeCalls (compressedCall fl cfg w) cs calls).1, out.isSome := by
  induction calls generalizing cs with
  | nil => exact fun out hout => absurd hout List.not_mem_nil
  | cons call calls ih =>
    have hfirst : call.position = cs.len := by
      have := hcalls 0 (Nat.zero_lt_succ _)
      simpa using this
    simp only [List.length_cons, Nat.cast_add, Nat.cast_one] at hroom
    have haccepts : Accepts fl cfg cs call.position :=
      ⟨hfirst, by omega, by omega, hrank, hrope, hok⟩
    have hcompressed : compressedCall fl cfg w call cs = _ := decode_accepts haccepts
    have hnext : (cs.append fl cfg w call.x call.position).len = cs.len + 1 := by
      rw [← hfirst]
      rfl
    unfold decodeCalls
    rw [hcompressed]
    intro out hout
    rcases List.mem_cons.mp hout with rfl | hrest
    · rfl
    · refine @ih (cs.append fl cfg w call.x call.position) hrank hrope (by omega) ?_ ?_ out hrest
      · rw [hnext]
        change cs.len + 1 + (calls.length : Int) ≤ cs.capacity
        omega
      · intro i hi
        have hposition := hcalls (i + 1) (Nat.succ_lt_succ hi)
        rw [hnext]
        simp only [List.getElem_cons_succ] at hposition
        rw [hposition]
        omega

end Run

/-- The absorbed kernel and the expanded one give the same outputs on any calls, and the
expanded keys and values stay the `kv_b` image of the compressed rows. -/
theorem decodeCompressed_eq_expanded {K : Type*} [Field K] (fl : MlaFloats K K) (cfg : MlaConfig K)
    (w : MlaBF16) {capacity : Int} {state : MlaState K} {cs : MlaCompressedState K}
    (hexpanded : kvlMlaStateInit (exactFloats fl) cfg capacity = some state)
    (hcompressed : kvlMlaCompressedStateInit (exactFloats fl) cfg capacity = some cs)
    (calls : List (DecodeCall K)) :
    (decodeCalls (compressedCall (exactFloats fl) cfg w) cs calls).1 =
        (decodeCalls (expandedCall (exactFloats fl) cfg w) state calls).1 ∧
      StateImage fl cfg w (decodeCalls (expandedCall (exactFloats fl) cfg w) state calls).2
        (decodeCalls (compressedCall (exactFloats fl) cfg w) cs calls).2 ∧
      (cfg.Ok (exactFloats fl) → (calls.length : Int) ≤ capacity →
        (∀ i (hi : i < calls.length), calls[i].position = i) →
        ∀ out ∈ (decodeCalls (compressedCall (exactFloats fl) cfg w) cs calls).1, out.isSome) := by
  obtain ⟨hNH, hDN, hDV⟩ := kvlMlaStateInit_dims hexpanded
  obtain ⟨hstart, hcapacity, hlen⟩ := @StateImage.start K _ fl cfg w _ _ _ hexpanded hcompressed
  obtain ⟨houts, himage⟩ := hstart.calls hNH hDN hDV calls
  refine ⟨houts.symm, himage, fun hok hroom hcalls => ?_⟩
  apply compressedCalls_isSome hok hstart.rank hstart.compressedRope (by omega) calls
  · rw [hlen, hcapacity]
    omega
  · intro i hi
    rw [hcalls i hi, hlen, Int.zero_add]

/-- Two heads with keys of three values. -/
def twoHeads : MlaConfig Rat := ⟨2, 2, 1, 2, 2, 2, 0, 1⟩

/-- Two tokens in order and one out of order. -/
def twoHeadsCalls : List (DecodeCall Rat) :=
  [⟨fun i => i + 1, 0, fun _ => 0, 0, fun _ => 7⟩, ⟨fun i => 2 * i, 1, fun _ => 5, 2, fun _ => 8⟩,
    ⟨fun _ => 3, 1, fun _ => 0, 0, fun _ => 9⟩]

theorem decodeCompressed_eq_expanded_twoHeads : ∃ state cs,
    (decodeCalls (compressedCall (exactFloats ratFloats) twoHeads (ratTrunk.layer 0).attn) cs
        twoHeadsCalls).1 =
      (decodeCalls (expandedCall (exactFloats ratFloats) twoHeads (ratTrunk.layer 0).attn) state
        twoHeadsCalls).1 ∧
    StateImage ratFloats twoHeads (ratTrunk.layer 0).attn
      (decodeCalls (expandedCall (exactFloats ratFloats) twoHeads (ratTrunk.layer 0).attn) state
        twoHeadsCalls).2
      (decodeCalls (compressedCall (exactFloats ratFloats) twoHeads (ratTrunk.layer 0).attn) cs
        twoHeadsCalls).2 ∧
    (decodeCalls (compressedCall (exactFloats ratFloats) twoHeads (ratTrunk.layer 0).attn) cs
        twoHeadsCalls).2.len = 2 :=
  have h := @decodeCompressed_eq_expanded _ _ ratFloats twoHeads (ratTrunk.layer 0).attn 2 _ _
    rfl rfl twoHeadsCalls
  ⟨_, _, h.1, h.2.1, by decide +kernel⟩

end Kvl

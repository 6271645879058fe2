import Kvl.Mla.State

/-!
# What decoding one token reads and writes

Decoding appends one row to a state. It reads the rows up to its position and
the values of its token, and nothing else.
-/

namespace Kvl

set_option autoImplicit false

section Decode
variable {F D : Type*} (fl : MlaFloats F D) (cfg : MlaConfig F) (w : MlaBF16)

/-- The state that a token of `position` is decoded against. -/
structure Accepts (state : MlaCompressedState F) (position : Int) : Prop where
  len : position = state.len
  nonneg : 0 ≤ position
  room : position < state.capacity
  rank : state.kvLoraRank = cfg.kvLoraRank
  ropeDim : state.qkRopeDim = cfg.qkRopeDim
  ok : cfg.Ok fl

/-- The state after a token. -/
def MlaCompressedState.append (state : MlaCompressedState F) (x : Nat → F) (position : Int) :
    MlaCompressedState F :=
  { state.put fl cfg w position.toNat x with len := position + 1 }

/-- The attention output of a token whose row is already in the state. -/
def attnOf (state : MlaCompressedState F) (x : Nat → F) (position : Int) : Nat → F :=
  bf16Row fl.toMoeFloats (headOut cfg (decodeHead fl cfg w state x position)) w.oProj
    (cfg.numHeads * cfg.vHeadDim)

variable {fl cfg w}

theorem decode_accepts {base : Nat} {x out : Nat → F} {position : Int}
    {state : MlaCompressedState F} (h : Accepts fl cfg state position) :
    kvlMlaDecodeCompressedBf16 fl cfg w base x position state out =
      some (writeAt base cfg.hiddenSize.toNat
        (attnOf fl cfg w (state.put fl cfg w position.toNat x) x position) out,
        state.append fl cfg w x position) := by
  have hguard : ¬ (position ≠ state.len ∨ position < 0 ∨ state.capacity ≤ position ∨
      state.kvLoraRank ≠ cfg.kvLoraRank ∨ state.qkRopeDim ≠ cfg.qkRopeDim) := by
    have := h.len
    have := h.nonneg
    have := h.room
    have := h.rank
    have := h.ropeDim
    omega
  unfold kvlMlaDecodeCompressedBf16
  rw [if_neg hguard, if_neg (not_not.mpr h.ok)]
  rfl

theorem decode_refuses {base : Nat} {x out : Nat → F} {position : Int}
    {state : MlaCompressedState F} (h : ¬ Accepts fl cfg state position) :
    kvlMlaDecodeCompressedBf16 fl cfg w base x position state out = none := by
  unfold kvlMlaDecodeCompressedBf16
  by_cases hguard : position ≠ state.len ∨ position < 0 ∨ state.capacity ≤ position ∨
      state.kvLoraRank ≠ cfg.kvLoraRank ∨ state.qkRopeDim ≠ cfg.qkRopeDim
  · rw [if_pos hguard]
  · rw [if_neg hguard, if_pos]
    intro hok
    apply h
    constructor
    · omega
    · omega
    · omega
    · omega
    · omega
    · exact hok

section Token
variable {x x' : Nat → F} (hx : row cfg.hiddenSize.toNat x = row cfg.hiddenSize.toNat x')
include hx

theorem proj_congr (p : Nat → UInt16) :
    bf16Row fl.toMoeFloats x p cfg.hiddenSize = bf16Row fl.toMoeFloats x' p cfg.hiddenSize := by
  funext o
  exact bf16Row_congr o (row_eq_iff.mp hx)

theorem put_congr_token (state : MlaCompressedState F) (t : Nat) :
    state.put fl cfg w t x = state.put fl cfg w t x' := by
  unfold MlaCompressedState.put latentOf ropeOf
  rw [proj_congr hx]

theorem append_congr_token (state : MlaCompressedState F) (position : Int) :
    state.append fl cfg w x position = state.append fl cfg w x' position := by
  unfold MlaCompressedState.append
  rw [put_congr_token hx]

theorem attnOf_congr_token (state : MlaCompressedState F) (position : Int) :
    attnOf fl cfg w state x position = attnOf fl cfg w state x' position := by
  unfold attnOf decodeHead queryOf
  rw [proj_congr hx]

end Token

/-- Two states with the same rows below `n`. -/
structure RowsBelow (cfg : MlaConfig F) (n : Nat) (a b : MlaCompressedState F) : Prop where
  latent : ∀ i < n * cfg.kvLoraRank.toNat, a.latent i = b.latent i
  rope : ∀ i < n * cfg.qkRopeDim.toNat, a.rope i = b.rope i

/-- Two states that no reader tells apart. -/
structure SameRows (cfg : MlaConfig F) (a b : MlaCompressedState F) : Prop where
  capacity : a.capacity = b.capacity
  len : a.len = b.len
  rank : a.kvLoraRank = b.kvLoraRank
  ropeDim : a.qkRopeDim = b.qkRopeDim
  rows : RowsBelow cfg a.len.toNat a b

namespace RowsBelow
variable {a b c : MlaCompressedState F} {n m : Nat}

theorem refl (a : MlaCompressedState F) (n : Nat) : RowsBelow cfg n a a :=
  ⟨fun _ _ => rfl, fun _ _ => rfl⟩

theorem symm (h : RowsBelow cfg n a b) : RowsBelow cfg n b a :=
  ⟨fun i hi => (h.latent i hi).symm, fun i hi => (h.rope i hi).symm⟩

theorem trans (hab : RowsBelow cfg n a b) (hbc : RowsBelow cfg n b c) : RowsBelow cfg n a c :=
  ⟨fun i hi => (hab.latent i hi).trans (hbc.latent i hi),
    fun i hi => (hab.rope i hi).trans (hbc.rope i hi)⟩

theorem mono (h : RowsBelow cfg n a b) (hm : m ≤ n) : RowsBelow cfg m a b :=
  ⟨fun i hi => h.latent i (hi.trans_le (Nat.mul_le_mul_right _ hm)),
    fun i hi => h.rope i (hi.trans_le (Nat.mul_le_mul_right _ hm))⟩

end RowsBelow

/-- A row written at `n` leaves the rows below it alone. -/
theorem put_frame (state : MlaCompressedState F) (n : Nat) (x : Nat → F) :
    RowsBelow cfg n (state.put fl cfg w n x) state := by
  constructor
  · intro i hi
    exact if_neg (by omega)
  · intro i hi
    exact if_neg (by omega)

theorem put_congr {a b : MlaCompressedState F} {n : Nat} {x : Nat → F}
    (h : RowsBelow cfg n a b) :
    RowsBelow cfg (n + 1) (a.put fl cfg w n x) (b.put fl cfg w n x) := by
  constructor
  · intro i hi
    rcases Nat.lt_or_ge i (n * cfg.kvLoraRank.toNat) with hlt | hge
    · rw [(put_frame a n x).latent i hlt, (put_frame b n x).latent i hlt]
      exact h.latent i hlt
    · rw [Nat.succ_mul] at hi
      unfold MlaCompressedState.put writeAt
      dsimp only
      rw [if_pos ⟨hge, hi⟩, if_pos ⟨hge, hi⟩]
  · intro i hi
    rcases Nat.lt_or_ge i (n * cfg.qkRopeDim.toNat) with hlt | hge
    · rw [(put_frame a n x).rope i hlt, (put_frame b n x).rope i hlt]
      exact h.rope i hlt
    · rw [Nat.succ_mul] at hi
      unfold MlaCompressedState.put writeAt
      dsimp only
      rw [if_pos ⟨hge, hi⟩, if_pos ⟨hge, hi⟩]

theorem dotFrom_congr {start : D} {n : Nat} {a a' b b' : Nat → F} (ha : ∀ i < n, a i = a' i)
    (hb : ∀ i < n, b i = b' i) : dotFrom fl start n a b = dotFrom fl start n a' b' := by
  apply foldl_range_congr
  intro acc i hi
  rw [ha i hi, hb i hi]

theorem maxScore_congr {n : Nat} {s s' : Nat → F} (h : ∀ j < n, s j = s' j) :
    maxScore fl n s = maxScore fl n s' := by
  apply foldl_range_congr
  intro m j hj
  rw [h j hj]

theorem expScores_congr {n : Nat} {s s' : Nat → F} (h : ∀ j < n, s j = s' j) :
    ∀ j < n, expScores fl n s j = expScores fl n s' j := by
  intro j hj
  unfold expScores
  rw [h j hj, maxScore_congr h]

theorem softDenom_congr {n : Nat} {s s' : Nat → F} (h : ∀ j < n, s j = s' j) :
    softDenom fl n s = softDenom fl n s' := by
  apply foldl_range_congr
  intro acc j hj
  rw [h j hj]

theorem decodeScore_congr {a b : MlaCompressedState F} {q : Nat → F} {position : Int} {n h j : Nat}
    (hab : RowsBelow cfg n a b) (hj : j < n) :
    decodeScore fl cfg w a q position h j = decodeScore fl cfg w b q position h j := by
  have hlatent : ∀ r < cfg.kvLoraRank.toNat, readFrom (j * cfg.kvLoraRank.toNat) a.latent r =
      readFrom (j * cfg.kvLoraRank.toNat) b.latent r := by
    intro r hr
    exact hab.latent _ (row_offset_lt hj hr)
  have hrope : ∀ d < cfg.qkRopeDim.toNat, readFrom (j * cfg.qkRopeDim.toNat) a.rope d =
      readFrom (j * cfg.qkRopeDim.toNat) b.rope d := by
    intro d hd
    exact hab.rope _ (row_offset_lt hj hd)
  unfold decodeScore
  dsimp only
  rw [dotFrom_congr (fun _ _ => rfl) hlatent, dotFrom_congr (fun _ _ => rfl) hrope]

theorem decodeMix_congr {a b : MlaCompressedState F} {s s' : Nat → F} {n r : Nat}
    (hab : RowsBelow cfg n a b) (hs : ∀ j < n, s j = s' j) (hr : r < cfg.kvLoraRank.toNat) :
    decodeMix fl cfg a s n r = decodeMix fl cfg b s' n r := by
  have hexp := @expScores_congr _ _ fl _ _ _ hs
  unfold decodeMix
  dsimp only
  rw [softDenom_congr hexp]
  congr 1
  apply foldl_range_congr
  intro acc j hj
  rw [hexp j hj, hab.latent _ (row_offset_lt hj hr)]

/-- A token attends to the rows up to its own. -/
theorem attnOf_congr {a b : MlaCompressedState F} {x : Nat → F} {position : Int}
    (hab : RowsBelow cfg (position.toNat + 1) a b) :
    attnOf fl cfg w a x position = attnOf fl cfg w b x position := by
  have hhead : decodeHead fl cfg w a x position = decodeHead fl cfg w b x position := by
    funext h d
    unfold decodeHead
    dsimp only
    congr 1
    apply dotFrom_congr (fun _ _ => rfl)
    intro r hr
    exact decodeMix_congr hab (fun j hj => decodeScore_congr hab hj) hr
  unfold attnOf
  rw [hhead]

theorem SameRows.accepts {a b : MlaCompressedState F} {position : Int} (h : SameRows cfg a b) :
    Accepts fl cfg a position ↔ Accepts fl cfg b position := by
  constructor
  · intro ha
    exact ⟨h.len ▸ ha.len, ha.nonneg, h.capacity ▸ ha.room, h.rank ▸ ha.rank,
      h.ropeDim ▸ ha.ropeDim, ha.ok⟩
  · intro hb
    exact ⟨h.len ▸ hb.len, hb.nonneg, h.capacity ▸ hb.room, h.rank ▸ hb.rank,
      h.ropeDim ▸ hb.ropeDim, hb.ok⟩

theorem SameRows.append {a b : MlaCompressedState F} {x : Nat → F} {position : Int}
    (h : SameRows cfg a b) (ha : Accepts fl cfg a position) :
    SameRows cfg (a.append fl cfg w x position) (b.append fl cfg w x position) := by
  have hrows : RowsBelow cfg position.toNat a b := ha.len ▸ h.rows
  have hnext : (position + 1).toNat = position.toNat + 1 := by
    have := ha.nonneg
    omega
  have hput := @put_congr _ _ fl _ w _ _ _ x hrows
  rw [← hnext] at hput
  exact ⟨h.capacity, rfl, h.rank, h.ropeDim, hput.latent, hput.rope⟩

end Decode

end Kvl

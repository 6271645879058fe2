import Kvl.Generate.Prompt
import Kvl.Mla.Absorb

/-!
# A prompt is its tokens one after another

In exact arithmetic a layer of `prefill_prompt` gives its rows the attention
that `forward_token` gives them one after another, and leaves the same state.
-/

namespace Kvl

set_option autoImplicit false

open Wavefront

section Rows
variable {F D : Type*} {fl : MlaFloats F D} {cfg : MlaConfig F} {w : MlaBF16}

theorem putRows_succ {x : Nat → F} {n : Nat} {state : MlaCompressedState F} :
    putRows fl cfg w x (n + 1) state =
      (putRows fl cfg w x n state).put fl cfg w n (readFrom (n * cfg.hiddenSize.toNat) x) := by
  unfold putRows
  rw [List.range_succ, List.foldl_append]
  rfl

theorem putRows_holds {x : Nat → F} (n : Nat) (state : MlaCompressedState F) :
    HoldsRows fl cfg w x n (putRows fl cfg w x n state) := by
  induction n with
  | zero => exact ⟨fun j hj => absurd hj (Nat.not_lt_zero j), fun j hj => absurd hj (Nat.not_lt_zero j)⟩
  | succ n ih =>
    rw [putRows_succ]
    have hframe := @put_frame _ _ fl cfg w (putRows fl cfg w x n state) n
        (readFrom (n * cfg.hiddenSize.toNat) x)
    constructor
    · intro j hj r hr
      rcases Nat.lt_succ_iff_lt_or_eq.mp hj with hlt | heq
      · rw [hframe.latent _ (row_offset_lt hlt hr)]
        exact ih.latent j hlt r hr
      · subst heq
        exact readFrom_writeAt hr
    · intro j hj d hd
      rcases Nat.lt_succ_iff_lt_or_eq.mp hj with hlt | heq
      · rw [hframe.rope _ (row_offset_lt hlt hd)]
        exact ih.rope j hlt d hd
      · subst heq
        exact readFrom_writeAt hd

end Rows

section Exact
variable {K : Type*} [Field K] {fl : MlaFloats K K} {net : Trunk K}

/-- The attention of token `t` in a prompt is that of decoding it. -/
theorem promptAttn_row {heads workA workB : Nat → K} {layer count t : Nat}
    {state : MlaCompressedState K} (hok : net.cfg.Ok (exactFloats fl)) (ht : t < count)
    (hrows : HoldsRows (exactFloats fl) net.cfg (net.layer layer).attn workA (t + 1) state) :
    rowAt net.hidden t (promptAttn (exactFloats fl) net heads layer count workA workB) =
      row net.hidden (attnOf (exactFloats fl) net.cfg (net.layer layer).attn state
        (readFrom (t * net.hidden) workA) t) := by
  obtain ⟨-, hNH, -, -, -, hDV, -, -⟩ := hok
  let inPlace : Bool := net.cfg.numHeads * net.cfg.vHeadDim = net.cfg.hiddenSize
  let headSeq := prefillHeads (exactFloats fl) net.cfg (net.layer layer).attn workA count
    net.cfg.numHeads.toNat (if inPlace then workB else heads)
  have hplace : inPlace = true → net.cfg.numHeads * net.cfg.vHeadDim = net.cfg.hiddenSize ∧
      headSeq = if inPlace then headSeq else workB := by
    intro h
    exact ⟨of_decide_eq_true h, (if_pos h).symm⟩
  have hproject := @prefillProject_rows _ _ (exactFloats fl) _ ((net.layer layer).attn) _ _ _ _ _
      hplace ht
  have hheads := @prefillHeads_token _ _ (exactFloats fl) _ ((net.layer layer).attn) workA
      (if inPlace then workB else heads) _ _ hNH hDV ht
  have hhead : (headOut net.cfg fun h d =>
      prefillHead (exactFloats fl) net.cfg (net.layer layer).attn workA h t d) =
      headOut net.cfg (decodeHead (exactFloats fl) net.cfg (net.layer layer).attn state
        (readFrom (t * net.hidden) workA) t) := by
    funext k
    exact (head_absorbed hrows).symm
  rw [hhead] at hheads
  refine hproject.trans (row_congr ?_)
  intro o _
  exact bf16Row_congr o (row_eq_iff.mp hheads)

theorem promptAttn_items {heads x workA workB : Nat → K} {layer count : Nat}
    {state : MlaCompressedState K} (hready : Ready (exactFloats fl) net.cfg count 0 state)
    (hnorm : ∀ t < count, rowAt net.hidden t workA = row net.hidden
      ((exactFloats fl).rmsnorm (rowAt net.hidden t x) (net.layer layer).inputNorm
        net.cfg.rmsEps)) :
    throughItems (attnStep (exactFloats fl) net layer) state (bufferRows net count 0 x) =
      some ({ putRows (exactFloats fl) net.cfg (net.layer layer).attn workA count state with
          len := count },
        (List.range count).map fun (t : Nat) => ((0 + (t : Int), rowAt net.hidden t x),
          rowAt net.hidden t (promptAttn (exactFloats fl) net heads layer count workA workB))) := by
  -- the state after `k` tokens
  let after : Nat → MlaCompressedState K := fun k =>
    { putRows (exactFloats fl) net.cfg (net.layer layer).attn workA k state with len := k }
  have hrounds : ∀ k ≤ count,
      throughItems (attnStep (exactFloats fl) net layer) state (bufferRows net k 0 x) =
        some (after k, (List.range k).map fun (t : Nat) => ((0 + (t : Int), rowAt net.hidden t x),
          rowAt net.hidden t
            (promptAttn (exactFloats fl) net heads layer count workA workB))) := by
    intro k
    induction k with
    | zero =>
      intro _
      have hlen : state.len = 0 := hready.len
      have hstate : after 0 = state := by
        change { state with len := 0 } = state
        rw [← hlen]
      rw [hstate]
      rfl
    | succ k ih =>
      intro hk
      have hitems := ih (Nat.le_of_succ_le hk)
      have hfilled := @putRows_shape _ _ (exactFloats fl) net.cfg ((net.layer layer).attn) workA k
          state
      have haccepts : Accepts (exactFloats fl) net.cfg (after k) (0 + (k : Int)) := by
        have hroom := hready.room
        have hcapacity : (putRows (exactFloats fl) net.cfg (net.layer layer).attn workA k
            state).capacity = state.capacity := hfilled.capacity
        refine ⟨Int.zero_add _, by omega, ?_, hfilled.rank.trans hready.rank,
          hfilled.ropeDim.trans hready.ropeDim, hready.ok⟩
        change _ < (putRows _ _ _ _ k state).capacity
        omega
      have hstep := @attnStep_accepts _ _ _ _ layer _ ((0 + (k : Int), rowAt net.hidden k x))
          (readFrom (k * net.hidden) workA) haccepts (hnorm k hk)
      have hholds := @putRows_holds _ _ (exactFloats fl) net.cfg ((net.layer layer).attn) workA
          (k + 1) state
      rw [putRows_succ] at hholds
      have hattn := @promptAttn_row _ _ _ _ heads _ workB _ _ _ ((after k).put (exactFloats fl) net.cfg (net.layer layer).attn k
          (readFrom (k * net.hidden) workA)) hready.ok hk ⟨hholds.latent, hholds.rope⟩
      have hposition : (0 + (k : Int)) = (k : Int) := Int.zero_add _
      unfold bufferRows at hitems ⊢
      rw [List.range_succ, List.map_append, List.map_append, throughItems_append, hitems,
        Option.bind_some]
      change Option.map _ (throughItems (attnStep (exactFloats fl) net layer) (after k)
        [(0 + (k : Int), rowAt net.hidden k x)]) = _
      rw [throughItems_cons, hstep]
      change some (MlaCompressedState.append _ _ _ _ _ (0 + (k : Int)), _ ++ [_]) =
        some (_, _ ++ [(_, rowAt net.hidden k _)])
      rw [hattn]
      dsimp only
      rw [hposition, Int.toNat_natCast]
      have happend : (after k).append (exactFloats fl) net.cfg (net.layer layer).attn
          (readFrom (k * net.hidden) workA) (k : Int) = after (k + 1) := by
        unfold MlaCompressedState.append
        rw [Int.toNat_natCast]
        change _ = ({ putRows (exactFloats fl) net.cfg (net.layer layer).attn workA (k + 1) state with
          len := ((k + 1 : Nat) : Int) } : MlaCompressedState K)
        rw [putRows_succ]
        rfl
      rw [happend]
  exact hrounds count (Nat.le_refl count)

theorem promptLayer_items {heads : Nat → K} {layer count : Nat} {state : MlaCompressedState K}
    {work : Work K} (hready : Ready (exactFloats fl) net.cfg count 0 state) (hcount : 0 < count) :
    ∃ state' work', promptLayer (exactFloats fl) net heads layer count state work =
        some (state', work') ∧
      throughItems (layerStep (exactFloats fl) net layer) state (bufferRows net count 0 work.x) =
        some (state', bufferRows net count 0 work'.x) := by
  refine ⟨_, _, promptLayer_ready hready hcount, ?_⟩
  unfold layerStep
  rw [throughItems_map, @promptAttn_items _ _ _ _ heads _ _ work.workB _ _ _ hready
      (blockInputNorm_rows work), blockTail_rows work]
  rfl

theorem promptLayers_stages {heads : Nat → K} {count n : Nat} {states : MlaStates K}
    {work : Work K} (hready : ∀ l < n, Ready (exactFloats fl) net.cfg count 0 (states l))
    (hcount : 0 < count) :
    ∃ states' work', promptLayers (exactFloats fl) net heads count states work n =
        some (states', work') ∧
      stageMajor (layerStep (exactFloats fl) net) n states (bufferRows net count 0 work.x) =
        some (states', bufferRows net count 0 work'.x) := by
  induction n with
  | zero => exact ⟨states, work, rfl, rfl⟩
  | succ n ih =>
    obtain ⟨states₁, work₁, hlayers, hstages⟩ := ih fun l hl => hready l (Nat.lt_succ_of_lt hl)
    have hitems := hstages
    rw [stageMajor_eq_itemMajor] at hitems
    have hstate : states₁ n = states n := itemMajor_above (Nat.le_refl n) hitems
    have hn : Ready (exactFloats fl) net.cfg count 0 (states₁ n) := by
      rw [hstate]
      exact hready n (Nat.lt_succ_self n)
    obtain ⟨state', work', hlayer, hrows⟩ :=
      @promptLayer_items _ _ _ _ heads n _ _ work₁ hn hcount
    refine ⟨Function.update states₁ n state', work', ?_, ?_⟩
    · rw [promptLayers_succ, hlayers, Option.bind_some, hlayer]
      rfl
    · rw [stageMajor_succ, hstages, Option.bind_some, hrows]
      rfl

/-- The last logits that are read from rows are those of the last row. -/
theorem readout_last {F D : Type*} {fl : MlaFloats F D} {net : Trunk F}
    {items : List (TokenRow F)} {item : TokenRow F} {logits logits' : Nat → F} :
    ∀ i < net.vocab,
      (readout fl net (items ++ [item]) logits).2 i = rowLogits fl net item.2 logits' i := by
  induction items generalizing logits with
  | nil => exact rowLogits_below item.2 logits logits'
  | cons first items ih => exact ih

/-- In exact arithmetic, a prompt from empty states leaves the states, and
yields the last logits, of `forward_token` on its tokens one after another. -/
theorem prefillPrompt_eq_forwardTokens (fl : MlaFloats K K) (net : Trunk K) (mem : Work K)
    (heads attn : Nat → K) (states : MlaStates K) (prompt : List Int) (logits logits' : Nat → K)
    (hprompt : prompt ≠ []) (hids : ∀ id ∈ prompt, validId net id = true)
    (hempty : ∀ l < net.layers, Ready (exactFloats fl) net.cfg prompt.length 0 (states l)) :
    ∃ states' last next last',
      prefillPrompt (exactFloats fl) net mem heads states prompt logits = some (states', last) ∧
      forwardTokens (exactFloats fl) net attn states prompt 0 logits' =
        some (states', next, last') ∧
      ∀ i < net.vocab, last i = last' i := by
  have hpos : 0 < prompt.length := List.length_pos_iff.mpr hprompt
  let x := writeRows prompt.length net.hidden
    (fun _ t => embedding (exactFloats fl) net (prompt.getD t 0)) mem.x
  have hx : ∀ t < prompt.length, rowAt net.hidden t x =
      row net.hidden (embedding (exactFloats fl) net (prompt.getD t 0)) := by
    intro t ht
    exact rowAt_writeRows (n := net.hidden) (fun _ _ => rfl) ht
  obtain ⟨states', work', hlayers, hstages⟩ :=
    @promptLayers_stages _ _ _ _ heads _ _ _ ({ mem with x := x }) hempty hpos
  rw [stageMajor_eq_itemMajor] at hstages
  dsimp only at hstages
  rw [bufferRows_tokenRows hx] at hstages
  have hserial := @forwardTokens_items _ _ (exactFloats fl) _ attn states _ 0 logits' hids
  rw [hstages] at hserial
  refine ⟨states', finalLogits (exactFloats fl) net
    (readFrom ((prompt.length - 1) * net.hidden) work'.x) logits, _, _, ?_, hserial, ?_⟩
  · unfold prefillPrompt
    dsimp only
    rw [if_neg (by omega), expandBlock_rows hids]
    change Option.bind (promptLayers (exactFloats fl) net heads prompt.length states
      { mem with x := x } net.layers) _ = _
    rw [hlayers]
    rfl
  · intro i hi
    have hsplit : bufferRows net prompt.length 0 work'.x =
        bufferRows net (prompt.length - 1) 0 work'.x ++
          [(0 + ((prompt.length - 1 : Nat) : Int), rowAt net.hidden (prompt.length - 1) work'.x)] := by
      have hsucc : prompt.length = prompt.length - 1 + 1 := by omega
      unfold bufferRows
      conv_lhs => rw [hsucc, List.range_succ, List.map_append]
      rfl
    have hlast := @readout_last _ _ (exactFloats fl) net
        (bufferRows net (prompt.length - 1) 0 work'.x)
        ((0 + ((prompt.length - 1 : Nat) : Int), rowAt net.hidden (prompt.length - 1) work'.x))
        logits' logits i hi
    rw [← hsplit] at hlast
    exact hlast.symm

end Exact

/-- Rational arithmetic, with a rough `exp`. -/
def ratFloats : MlaFloats Rat Rat where
  zero := 0
  one := 1
  negInf := -1000000
  add := (· + ·)
  mul := (· * ·)
  div := (· / ·)
  neg := (- ·)
  exp a := 1 + a + a * a / 2
  gt a b := a > b
  eq a b := a == b
  isFinite _ := true
  widen := id
  narrow := id
  addD := (· + ·)
  mulD := (· * ·)
  zeroD := 0
  tinyD := 0
  f16BitsToF32 h := h.toNat
  bf16ToF32 h := h.toNat
  ofInt8 b := b.toNat
  sub := (· - ·)
  sqrt a := a
  ofInt a := a
  divD := (· / ·)
  rmsnorm xs w _ i := xs.getD i 0 + (w i).toNat
  rope xs position _ i := xs.getD i 0 + position

/-- `smallTrunk` over the rationals. -/
def ratTrunk : Trunk Rat where
  layers := 2
  vocab := 3
  cfg := ⟨2, 1, 1, 2, 2, 1, 0, 1⟩
  layer l := ⟨fun i => (i + l).toUInt16, ⟨fun _ => 1, fun _ => 2, fun _ => 1, fun _ => 1, fun _ => 3⟩,
    fun _ => 1⟩
  embTokens i := (3 * i).toUInt16
  finalNorm _ := 1
  lmHead i := (i % 4).toUInt16
  denseMlp xs i := xs.getD i 0 + 1
  moeToken l xs i := 2 * xs.getD i 0 + l

theorem prefillPrompt_eq_forwardTokens_three :
    ∃ states' last next last',
      prefillPrompt (exactFloats ratFloats) ratTrunk ⟨fun _ => 5, fun _ => 6, fun _ => 7⟩
        (fun _ => 4) (fun _ => ⟨4, 0, 1, 2, fun _ => 0, fun _ => 0⟩) [2, 0, 1] (fun _ => 8) =
          some (states', last) ∧
      forwardTokens (exactFloats ratFloats) ratTrunk (fun _ => 9)
        (fun _ => ⟨4, 0, 1, 2, fun _ => 0, fun _ => 0⟩) [2, 0, 1] 0 (fun _ => 3) =
          some (states', next, last') ∧
      ∀ i < 3, last i = last' i :=
  prefillPrompt_eq_forwardTokens _ _ _ _ _ _ _ _ _ (by decide) (by decide)
    fun _ _ => ⟨rfl, Int.le_refl 0, by change (0 : Int) + 3 ≤ 4; decide, rfl, rfl, by decide⟩

end Kvl

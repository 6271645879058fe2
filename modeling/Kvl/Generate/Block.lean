import Kvl.Generate.Layers

/-!
# Blocks of tokens, layer by layer

The three buffers of a block hold, after each loop, the rows that the tokens
have at that point of the layer. So a block goes through the layers as its
tokens do, and the interchange of the two loops is the one of the stages.
-/

namespace Kvl

set_option autoImplicit false

open Wavefront

section Block
variable {F D : Type*} {fl : MlaFloats F D} {net : Trunk F}

/-- The tokens whose rows a buffer holds. -/
def bufferRows (net : Trunk F) (count : Nat) (position : Int) (x : Nat → F) : List (TokenRow F) :=
  (List.range count).map fun (t : Nat) => (position + (t : Int), rowAt net.hidden t x)

/-- A state with room for `count` tokens from `position`. -/
structure Ready (fl : MlaFloats F D) (cfg : MlaConfig F) (count : Nat) (position : Int)
    (state : MlaCompressedState F) : Prop where
  len : state.len = position
  nonneg : 0 ≤ position
  room : position + count ≤ state.capacity
  rank : state.kvLoraRank = cfg.kvLoraRank
  ropeDim : state.qkRopeDim = cfg.qkRopeDim
  ok : cfg.Ok fl

theorem Ready.accepts {cfg : MlaConfig F} {count : Nat} {position : Int}
    {state : MlaCompressedState F} (h : Ready fl cfg (count + 1) position state) :
    Accepts fl cfg state position := by
  have hroom := h.room
  exact ⟨h.len.symm, h.nonneg, by omega, h.rank, h.ropeDim, h.ok⟩

theorem Ready.append {cfg : MlaConfig F} {w : MlaBF16} {count : Nat} {position : Int}
    {state : MlaCompressedState F} {x : Nat → F} (h : Ready fl cfg (count + 1) position state) :
    Ready fl cfg count (position + 1) (state.append fl cfg w x position) := by
  have hroom := h.room
  have hnonneg := h.nonneg
  refine ⟨rfl, by omega, ?_, h.rank, h.ropeDim, h.ok⟩
  change position + 1 + count ≤ state.capacity
  omega

/-! ### One layer -/

/-- The rows of `work_b` are the attention outputs of the rows of `work_a`. -/
theorem blockDecode_items {layer count : Nat} {position : Int} {state : MlaCompressedState F}
    {x workA workB : Nat → F} (hready : Ready fl net.cfg count position state) (hcount : 0 < count)
    (hnorm : ∀ t < count, rowAt net.hidden t workA = row net.hidden
      (fl.rmsnorm (rowAt net.hidden t x) (net.layer layer).inputNorm net.cfg.rmsEps)) :
    ∃ out state', kvlMlaDecodeCompressedBlockBf16 fl net.cfg (net.layer layer).attn workA count
        position state workB = some (out, state') ∧
      throughItems (attnStep fl net layer) state (bufferRows net count position x) =
        some (state', (List.range count).map fun (t : Nat) =>
          ((position + (t : Int), rowAt net.hidden t x), rowAt net.hidden t out)) := by
  -- the first `k` rounds leave a state with room for the others
  have hrounds : ∀ k ≤ count, ∃ out state',
      (List.range k).foldlM (fun p (t : Nat) =>
        kvlMlaDecodeCompressedBf16 fl net.cfg (net.layer layer).attn (t * net.hidden)
          (readFrom (t * net.hidden) workA) (position + t) p.2 p.1) (workB, state) =
        some (out, state') ∧
      Ready fl net.cfg (count - k) (position + k) state' ∧
      throughItems (attnStep fl net layer) state (bufferRows net k position x) =
        some (state', (List.range k).map fun (t : Nat) =>
          ((position + (t : Int), rowAt net.hidden t x), rowAt net.hidden t out)) := by
    intro k
    induction k with
    | zero =>
      intro _
      refine ⟨workB, state, rfl, ?_, rfl⟩
      rw [Int.natCast_zero, Int.add_zero]
      exact hready
    | succ k ih =>
      intro hk
      obtain ⟨out, state', hloop, hroom, hitems⟩ := ih (Nat.le_of_succ_le hk)
      have hleft : count - k = (count - (k + 1)) + 1 := by omega
      rw [hleft] at hroom
      have haccepts := hroom.accepts
      rw [foldlM_range_succ, hloop, Option.bind_some]
      dsimp only
      rw [decode_accepts haccepts]
      refine ⟨_, _, rfl, ?_, ?_⟩
      · have hnext : position + ((k + 1 : Nat) : Int) = position + k + 1 := by omega
        rw [hnext]
        exact hroom.append
      · have hrow := hnorm k hk
        have hstep := @attnStep_accepts _ _ _ _ layer _
            ((position + (k : Int), rowAt net.hidden k x)) (readFrom (k * net.hidden) workA)
            haccepts hrow
        unfold bufferRows at hitems ⊢
        rw [List.range_succ, List.map_append, List.map_append, throughItems_append, hitems,
          Option.bind_some]
        change Option.map _ (throughItems (attnStep fl net layer) state'
          [(position + (k : Int), rowAt net.hidden k x)]) = _
        rw [throughItems_cons, hstep]
        change some (_, _ ++ [_]) = some (_, _ ++ [_])
        congr 3
        · apply List.map_congr_left
          intro t ht
          have hne : t ≠ k := by
            have := List.mem_range.mp ht
            omega
          change (_, rowAt net.hidden t out) =
            (_, rowAt net.hidden t (writeAt (k * net.hidden) net.hidden _ out))
          rw [rowAt_writeAt_of_ne hne]
        · change [(_, row net.hidden _)] =
            [(_, rowAt net.hidden k (writeAt (k * net.hidden) net.hidden _ out))]
          rw [rowAt_writeAt_self]
  obtain ⟨out, state', hloop, -, hitems⟩ := hrounds count (Nat.le_refl count)
  refine ⟨out, state', ?_, hitems⟩
  have hroom := hready.room
  have hguard : ¬ ((count : Int) ≤ 0 ∨ position ≠ state.len ∨ position < 0 ∨
      state.capacity - position < count) := by
    have := hready.len
    have := hready.nonneg
    omega
  have hhidden : ¬ net.cfg.hiddenSize ≤ 0 := by
    have := hready.ok.1
    omega
  unfold kvlMlaDecodeCompressedBlockBf16
  rw [if_neg hguard, if_neg hhidden]
  exact hloop

/-- Every row of the residual loop is made of the row that was there. -/
theorem blockResidualNorm_rows {layer count : Nat} {work : Work F} :
    (blockResidualNorm fl net layer count work).x = work.x ∧
      ∀ t < count,
        rowAt net.hidden t (blockResidualNorm fl net layer count work).workB =
          List.zipWith fl.add (rowAt net.hidden t work.x) (rowAt net.hidden t work.workB) ∧
        rowAt net.hidden t (blockResidualNorm fl net layer count work).workA =
          row net.hidden (fl.rmsnorm (List.zipWith fl.add (rowAt net.hidden t work.x)
            (rowAt net.hidden t work.workB)) (net.layer layer).postAttnNorm net.cfg.rmsEps) := by
  have hrounds : ∀ k, (blockResidualNorm fl net layer k work).x = work.x ∧
      (∀ t, k ≤ t → rowAt net.hidden t (blockResidualNorm fl net layer k work).workB =
        rowAt net.hidden t work.workB) ∧
      ∀ t < k,
        rowAt net.hidden t (blockResidualNorm fl net layer k work).workB =
          List.zipWith fl.add (rowAt net.hidden t work.x) (rowAt net.hidden t work.workB) ∧
        rowAt net.hidden t (blockResidualNorm fl net layer k work).workA =
          row net.hidden (fl.rmsnorm (List.zipWith fl.add (rowAt net.hidden t work.x)
            (rowAt net.hidden t work.workB)) (net.layer layer).postAttnNorm net.cfg.rmsEps) := by
    intro k
    induction k with
    | zero => exact ⟨rfl, fun _ _ => rfl, fun t ht => absurd ht (Nat.not_lt_zero t)⟩
    | succ k ih =>
      obtain ⟨hx, hlater, hdone⟩ := ih
      have hsucc : blockResidualNorm fl net layer (k + 1) work =
          let w := blockResidualNorm fl net layer k work
          let workB := writeAt (k * net.hidden) net.hidden
            (fun i => fl.add (w.x (k * net.hidden + i)) (w.workB (k * net.hidden + i))) w.workB
          { w with
            workB := workB
            workA := writeAt (k * net.hidden) net.hidden (rmsnormOf fl net
              (readFrom (k * net.hidden) workB) (net.layer layer).postAttnNorm) w.workA } := by
        unfold blockResidualNorm
        rw [List.range_succ, List.foldl_append]
        rfl
      rw [hsucc]
      generalize blockResidualNorm fl net layer k work = w at hx hlater hdone ⊢
      have hsum : (row net.hidden fun i =>
          fl.add (w.x (k * net.hidden + i)) (w.workB (k * net.hidden + i))) =
          List.zipWith fl.add (rowAt net.hidden k work.x) (rowAt net.hidden k work.workB) := by
        rw [← hlater k (Nat.le_refl k), ← hx]
        exact (row_zipWith fl.add _ _).symm
      refine ⟨hx, ?_, ?_⟩
      · intro t ht
        dsimp only
        rw [rowAt_writeAt_of_ne (by omega)]
        exact hlater t (Nat.le_of_succ_le ht)
      · intro t ht
        dsimp only
        rcases Nat.lt_succ_iff_lt_or_eq.mp ht with hlt | heq
        · rw [rowAt_writeAt_of_ne (by omega), rowAt_writeAt_of_ne (by omega)]
          exact hdone t hlt
        · subst heq
          rw [rowAt_writeAt_self, rowAt_writeAt_self, hsum]
          refine ⟨rfl, ?_⟩
          unfold rmsnormOf
          change row _ (fl.rmsnorm (rowAt net.hidden t _) _ _) = _
          rw [rowAt_writeAt_self, hsum]
  exact ⟨(hrounds count).1, (hrounds count).2.2⟩

/-- A row inside a buffer that is written as a whole. -/
theorem rowAt_writeAt_all {n t count : Nat} {f buf : Nat → F} (ht : t < count) :
    rowAt n t (writeAt 0 (count * n) f buf) = row n fun i => f (t * n + i) := by
  apply row_congr
  intro i hi
  have hoff := row_offset_lt ht hi
  unfold readFrom writeAt
  rw [if_pos ⟨Nat.zero_le _, by omega⟩, Nat.sub_zero]

theorem blockMlp_rows {layer count : Nat} {work : Work F} {t : Nat} (ht : t < count) :
    rowAt net.hidden t (blockMlp fl net layer count work).x =
      List.zipWith fl.add (rowAt net.hidden t work.workB)
        (row net.hidden (mlpToken net layer (readFrom (t * net.hidden) work.workA))) := by
  have hmlp := @rowAt_writeRows _ _ net.hidden _
      (fun _ t => mlpToken net layer (readFrom (t * net.hidden) work.workA)) work.x
      (fun _ _ => rfl) ht
  unfold blockMlp
  dsimp only
  rw [rowAt_writeAt_all ht, ← hmlp]
  exact (row_zipWith fl.add _ _).symm

/-- What a layer does to its rows after the attention, whatever computed it. -/
theorem blockTail_rows {layer count : Nat} {position : Int} (work : Work F) (out : Nat → F) :
    let attended : Work F := { blockInputNorm fl net layer count work with workB := out }
    bufferRows net count position
        (blockMlp fl net layer count (blockResidualNorm fl net layer count attended)).x =
      ((List.range count).map fun (t : Nat) =>
        ((position + (t : Int), rowAt net.hidden t work.x), rowAt net.hidden t out)).map
          (finishRow fl net layer) := by
  intro attended
  obtain ⟨-, hrows⟩ := @blockResidualNorm_rows _ _ fl net layer count attended
  unfold bufferRows
  rw [List.map_map]
  apply List.map_congr_left
  intro t ht
  obtain ⟨hworkB, hworkA⟩ := hrows t (List.mem_range.mp ht)
  have hmlp : mlpToken net layer (readFrom (t * net.hidden)
      (blockResidualNorm fl net layer count attended).workA) =
      mlpToken net layer (fl.rmsnorm (List.zipWith fl.add (rowAt net.hidden t work.x)
        (rowAt net.hidden t out)) (net.layer layer).postAttnNorm net.cfg.rmsEps) := by
    unfold mlpToken
    change row net.hidden _ = row net.hidden _ at hworkA
    rw [hworkA]
    rfl
  change _ = finishRow fl net layer _
  rw [blockMlp_rows (List.mem_range.mp ht), hworkB, hmlp]
  rfl

theorem blockInputNorm_rows {layer count : Nat} (work : Work F) :
    ∀ t < count, rowAt net.hidden t (blockInputNorm fl net layer count work).workA =
      row net.hidden (fl.rmsnorm (rowAt net.hidden t work.x) (net.layer layer).inputNorm
        net.cfg.rmsEps) := by
  intro t ht
  exact rowAt_writeRows (n := net.hidden) (fun _ _ => rfl) ht

theorem blockLayer_items {layer count : Nat} {position : Int} {state : MlaCompressedState F}
    {work : Work F} (hready : Ready fl net.cfg count position state) (hcount : 0 < count) :
    ∃ state' work', blockLayer fl net layer count position state work = some (state', work') ∧
      throughItems (layerStep fl net layer) state (bufferRows net count position work.x) =
        some (state', bufferRows net count position work'.x) := by
  obtain ⟨out, state', hdecode, hitems⟩ := @blockDecode_items _ _ _ _ _ _ _ _ _ _ work.workB
      hready hcount (@blockInputNorm_rows _ _ _ _ layer _ work)
  let attended : Work F := { blockInputNorm fl net layer count work with workB := out }
  refine ⟨state', blockMlp fl net layer count (blockResidualNorm fl net layer count attended),
    ?_, ?_⟩
  · unfold blockLayer
    change Option.bind (kvlMlaDecodeCompressedBlockBf16 fl net.cfg (net.layer layer).attn
      (blockInputNorm fl net layer count work).workA count position state work.workB) _ = _
    rw [hdecode]
    rfl
  · unfold layerStep
    rw [throughItems_map, hitems, blockTail_rows work out]
    rfl

/-! ### All layers -/

theorem blockLayers_succ {count n : Nat} {position : Int} {states : MlaStates F} {work : Work F} :
    blockLayers fl net count position states work (n + 1) =
      (blockLayers fl net count position states work n).bind fun p =>
        (blockLayer fl net n count position (p.1 n) p.2).map fun q =>
          (Function.update p.1 n q.1, q.2) := by
  unfold blockLayers
  rw [foldlM_range_succ]
  congr
  funext p
  change Option.bind _ _ = _
  cases blockLayer fl net n count position (p.1 n) p.2 <;> rfl

theorem blockLayers_stages {count n : Nat} {position : Int} {states : MlaStates F} {work : Work F}
    (hready : ∀ l < n, Ready fl net.cfg count position (states l)) (hcount : 0 < count) :
    ∃ states' work', blockLayers fl net count position states work n = some (states', work') ∧
      stageMajor (layerStep fl net) n states (bufferRows net count position work.x) =
        some (states', bufferRows net count position work'.x) := by
  induction n with
  | zero => exact ⟨states, work, rfl, rfl⟩
  | succ n ih =>
    obtain ⟨states₁, work₁, hblock, hstages⟩ := ih fun l hl => hready l (Nat.lt_succ_of_lt hl)
    have hitems := hstages
    rw [stageMajor_eq_itemMajor] at hitems
    have hstate : states₁ n = states n := itemMajor_above (Nat.le_refl n) hitems
    have hn : Ready fl net.cfg count position (states₁ n) := by
      rw [hstate]
      exact hready n (Nat.lt_succ_self n)
    obtain ⟨state', work', hlayer, hrows⟩ :=
      @blockLayer_items _ _ _ _ n _ _ _ work₁ hn hcount
    refine ⟨Function.update states₁ n state', work', ?_, ?_⟩
    · rw [blockLayers_succ, hblock, Option.bind_some, hlayer]
      rfl
    · rw [stageMajor_succ, hstages, Option.bind_some, hrows]
      rfl

theorem blockNext_readout {count : Nat} {position : Int} {x lastLogits : Nat → F} :
    blockNext fl net count x lastLogits =
      readout fl net (bufferRows net count position x) lastLogits := by
  have hfold : ∀ (l : List Nat) (next : List Int) (logits : Nat → F),
      l.foldl (fun p t =>
        let logits := finalLogits fl net (readFrom (t * net.hidden) x) p.2
        (p.1 ++ [argmaxLab fl net logits], logits)) (next, logits) =
      (next ++ (readout fl net (l.map fun (t : Nat) =>
          (position + (t : Int), rowAt net.hidden t x)) logits).1,
        (readout fl net (l.map fun (t : Nat) =>
          (position + (t : Int), rowAt net.hidden t x)) logits).2) := by
    intro l
    induction l with
    | nil =>
      intro next logits
      exact Prod.ext (List.append_nil next).symm rfl
    | cons t l ih =>
      intro next logits
      rw [List.foldl_cons, ih, List.append_assoc]
      rfl
  exact (hfold (List.range count) [] lastLogits).trans (congrArg₂ Prod.mk (List.nil_append _) rfl)

/-- The rows of a block whose embeddings have been written. -/
theorem bufferRows_tokenRows {tokenIds : List Int} {position : Int} {x : Nat → F}
    (hx : ∀ t < tokenIds.length, rowAt net.hidden t x =
      row net.hidden (embedding fl net (tokenIds.getD t 0))) :
    bufferRows net tokenIds.length position x = tokenRows fl net tokenIds position := by
  have hrows : ∀ (ids : List Int) (position : Int),
      tokenRows fl net ids position = (List.range ids.length).map fun (t : Nat) =>
        (position + (t : Int), row net.hidden (embedding fl net (ids.getD t 0))) := by
    intro ids
    induction ids with
    | nil =>
      intro position
      rfl
    | cons id ids ih =>
      intro position
      unfold tokenRows
      rw [List.length_cons, List.range_succ_eq_map, List.map_cons, List.map_map, ih]
      congr 1
      · rw [Int.natCast_zero, Int.add_zero]
        rfl
      · apply List.map_congr_left
        intro t _
        change (position + 1 + (t : Int), _) = (position + ((t + 1 : Nat) : Int), _)
        congr 1
        omega
  rw [hrows]
  unfold bufferRows
  apply List.map_congr_left
  intro t ht
  rw [hx t (List.mem_range.mp ht)]

/-! ### Blocks and serial runs -/

theorem blockRefused_ready {count : Nat} {position : Int} {states : MlaStates F}
    (hready : ∀ l < net.layers, Ready fl net.cfg count position (states l)) :
    blockRefused net count position states = false := by
  unfold blockRefused
  rw [List.any_eq_false]
  intro l hl
  have h := hready l (List.mem_range.mp hl)
  have hlen := h.len
  have hroom := h.room
  rw [decide_eq_true_eq]
  omega

/-- Both blocks return what the stages leave. -/
theorem forwardBlock_stages {mem : Work F} {states : MlaStates F} {tokenIds : List Int}
    {position : Int} {lastLogits : Nat → F}
    (hready : ∀ l < net.layers, Ready fl net.cfg tokenIds.length position (states l))
    (hposition : 0 ≤ position) (hids : ∀ id ∈ tokenIds, validId net id = true)
    (hcount : tokenIds ≠ []) :
    ∃ p, itemMajor (layerStep fl net) net.layers states (tokenRows fl net tokenIds position) =
        some p ∧
      forwardBlockExactLab fl net mem states tokenIds position lastLogits =
        some (p.1, readout fl net p.2 lastLogits) := by
  have hpos : 0 < tokenIds.length := List.length_pos_iff.mpr hcount
  have hrefused := blockRefused_ready hready
  have hvalid : tokenIds.all (validId net) = true := List.all_eq_true.mpr hids
  let x := writeRows tokenIds.length net.hidden
    (fun _ t => embedding fl net (tokenIds.getD t 0)) mem.x
  have hx : ∀ t < tokenIds.length, rowAt net.hidden t x =
      row net.hidden (embedding fl net (tokenIds.getD t 0)) := by
    intro t ht
    exact rowAt_writeRows (n := net.hidden) (fun _ _ => rfl) ht
  obtain ⟨states', work', hlayers, hstages⟩ :=
    @blockLayers_stages _ _ _ _ _ _ _ _ ({ mem with x := x }) hready hpos
  rw [stageMajor_eq_itemMajor] at hstages
  dsimp only at hstages
  rw [bufferRows_tokenRows hx] at hstages
  refine ⟨_, hstages, ?_⟩
  unfold forwardBlockExactLab
  dsimp only
  rw [if_neg (by omega), if_neg (by rw [hvalid]; exact Bool.noConfusion),
    if_neg (by rw [hrefused]; exact Bool.noConfusion)]
  change Option.bind (blockLayers fl net tokenIds.length position states { mem with x := x }
    net.layers) _ = _
  rw [hlayers, Option.bind_some, ← blockNext_readout]
  rfl

/-- A block leaves the states, and returns the next ids and the last logits, of
`forward_token` on its tokens one after another. -/
theorem forwardBlockExactLab_eq_forwardTokens (mem : Work F) (attn : Nat → F)
    (states : MlaStates F) (tokenIds : List Int) (startPosition : Int)
    (lastLogits logits : Nat → F) (hcount : tokenIds ≠ [])
    (hids : ∀ id ∈ tokenIds, validId net id = true) (hstart : 0 ≤ startPosition)
    (hready : ∀ l < net.layers, Ready fl net.cfg tokenIds.length startPosition (states l)) :
    ∃ states' next last last',
      forwardBlockExactLab fl net mem states tokenIds startPosition lastLogits =
        some (states', next, last) ∧
      forwardTokens fl net attn states tokenIds startPosition logits =
        some (states', next, last') ∧
      ∀ i < net.vocab, last i = last' i := by
  obtain ⟨p, hitems, hblock⟩ :=
    @forwardBlock_stages _ _ _ _ mem _ _ _ lastLogits hready hstart hids hcount
  have hserial := @forwardTokens_items _ _ fl _ attn states _ startPosition logits hids
  rw [hitems] at hserial
  have hlength : p.2 ≠ [] := by
    intro hnil
    have hlen := throughItems_length hitems
    rw [hnil] at hlen
    cases tokenIds with
    | nil => exact hcount rfl
    | cons id ids => cases hlen
  obtain ⟨hnext, hlast⟩ := @readout_congr _ _ fl net p.2 lastLogits logits
  refine ⟨p.1, (readout fl net p.2 logits).1, (readout fl net p.2 lastLogits).2,
    (readout fl net p.2 logits).2, ?_, hserial, hlast hlength⟩
  rw [hblock, ← hnext]

end Block

def intMlaFloats : MlaFloats Int Int where
  toRouterFloats := intFloats
  f16BitsToF32 h := h.toNat
  bf16ToF32 h := h.toNat
  ofInt8 b := b.toNat
  sub := (· - ·)
  sqrt := id
  ofInt := id
  divD a b := 1000 * a / b
  rmsnorm xs w _ i := xs.getD i 0 + (w i).toNat
  rope xs position _ i := xs.getD i 0 + position

/-- Two layers, three tokens and a hidden size of two. -/
def smallTrunk : Trunk Int where
  layers := 2
  vocab := 3
  cfg := ⟨2, 1, 1, 2, 2, 1, 0, 1⟩
  layer l := ⟨fun i => (i + l).toUInt16, ⟨fun _ => 1, fun _ => 2, fun _ => 1, fun _ => 1, fun _ => 3⟩,
    fun _ => 1⟩
  embTokens i := (3 * i).toUInt16
  finalNorm _ := 1
  lmHead i := (i % 4).toUInt16
  denseMlp xs i := xs.getD i 0 + 1
  moeToken l xs i := 2 * xs.getD i 0 + l

def smallStates (capacity : Int) : MlaStates Int := fun _ =>
  ⟨capacity, 0, 1, 2, fun _ => 0, fun _ => 0⟩

theorem forwardBlockExactLab_eq_forwardTokens_three :
    ∃ states' next last last',
      forwardBlockExactLab intMlaFloats smallTrunk ⟨fun _ => 5, fun _ => 6, fun _ => 7⟩
        (smallStates 4) [2, 0, 1] 0 (fun _ => 8) = some (states', next, last) ∧
      forwardTokens intMlaFloats smallTrunk (fun _ => 9) (smallStates 4) [2, 0, 1] 0
        (fun _ => 0) = some (states', next, last') ∧
      ∀ i < 3, last i = last' i :=
  forwardBlockExactLab_eq_forwardTokens _ _ _ _ _ _ _ (by decide) (by decide) (by decide)
    fun _ _ => ⟨rfl, Int.le_refl 0, by change (0 : Int) + 3 ≤ 4; decide, rfl, rfl, by decide⟩

end Kvl

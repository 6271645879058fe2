import Kvl.Generate.Block
import Kvl.Mla.Prefill

/-!
# The prompt

`prefill_prompt` takes all tokens of a prompt through one layer after another.
It fills the empty state of each layer with the rows of the prompt.
-/

namespace Kvl

set_option autoImplicit false

open Wavefront

section Prompt
variable {F D : Type*} (fl : MlaFloats F D) (net : Trunk F)

/-- One layer of a prompt, attended to as a whole. -/
def promptLayer (heads : Nat → F) (layer count : Nat) (state : MlaCompressedState F)
    (work : Work F) : Option (MlaCompressedState F × Work F) := do
  let w := (net.layer layer).attn
  let work := blockInputNorm fl net layer count work
  let workB ← kvlMlaPrefillBf16 fl net.cfg w heads work.workA count work.workB
  let state ← kvlMlaCompressedStatePrefillBf16 fl net.cfg w work.workA count state
  let work := blockResidualNorm fl net layer count { work with workB := workB }
  pure (state, blockMlp fl net layer count work)

def promptLayers (heads : Nat → F) (count : Nat) (states : MlaStates F) (work : Work F)
    (n : Nat) : Option (MlaStates F × Work F) :=
  (List.range n).foldlM (fun (states, work) layer => do
    let (state, work) ← promptLayer fl net heads layer count (states layer) work
    pure (Function.update states layer state, work)) (states, work)

/-- The states and the `logits` buffer; `heads` is the head buffer of the layers. -/
def prefillPrompt (mem : Work F) (heads : Nat → F) (states : MlaStates F) (prompt : List Int)
    (logits : Nat → F) : Option (MlaStates F × (Nat → F)) :=
  let seqLen := prompt.length
  if seqLen = 0 then none
  else do
    let x ← expandBlock fl net prompt mem.x
    let (states, work) ← promptLayers fl net heads seqLen states { mem with x := x } net.layers
    pure (states, finalLogits fl net (readFrom ((seqLen - 1) * net.hidden) work.x) logits)

variable {fl net}

theorem expandBlock_rows {tokenIds : List Int} {x : Nat → F}
    (hids : ∀ id ∈ tokenIds, validId net id = true) :
    expandBlock fl net tokenIds x = some (writeRows tokenIds.length net.hidden
      (fun _ t => embedding fl net (tokenIds.getD t 0)) x) := by
  induction tokenIds using List.reverseRecOn with
  | nil => rfl
  | append_singleton ids id ih =>
    have hbefore := ih fun i hi => hids i (List.mem_append_left _ hi)
    have hid := hids id (List.mem_append_right _ (List.mem_singleton_self id))
    unfold expandBlock at hbefore ⊢
    rw [List.zipIdx_append, List.foldlM_append, hbefore]
    have hrows : writeRows ids.length net.hidden
        (fun _ t => embedding fl net ((ids ++ [id]).getD t 0)) x =
        writeRows ids.length net.hidden (fun _ t => embedding fl net (ids.getD t 0)) x := by
      unfold writeRows
      apply foldl_range_congr
      intro buf t ht
      dsimp only
      rw [List.getD_append _ _ _ _ ht]
    rw [List.length_append, List.length_cons, List.length_nil, Nat.zero_add, writeRows_succ, hrows,
      List.getD_append_right _ _ _ _ (Nat.le_refl _), Nat.sub_self]
    change Option.bind (if validId net id = false then none else _) _ = _
    rw [if_neg (by rw [hid]; exact Bool.noConfusion)]
    rfl

/-- A state that the prompt of `count` tokens filled. -/
structure Filled (count : Nat) (state state' : MlaCompressedState F) : Prop where
  len : state'.len = count
  capacity : state'.capacity = state.capacity
  rank : state'.kvLoraRank = state.kvLoraRank
  ropeDim : state'.qkRopeDim = state.qkRopeDim

variable (fl) in
/-- The rows of `count` tokens, put one after another. -/
def putRows (cfg : MlaConfig F) (w : MlaBF16) (x : Nat → F) (count : Nat)
    (state : MlaCompressedState F) : MlaCompressedState F :=
  (List.range count).foldl
    (fun state t => state.put fl cfg w t (readFrom (t * cfg.hiddenSize.toNat) x)) state

theorem putRows_shape {cfg : MlaConfig F} {w : MlaBF16} {x : Nat → F} (count : Nat)
    (state : MlaCompressedState F) :
    Filled count state { putRows fl cfg w x count state with len := count } := by
  induction count with
  | zero => exact ⟨rfl, rfl, rfl, rfl⟩
  | succ count ih =>
    unfold putRows at ih ⊢
    rw [List.range_succ, List.foldl_append]
    exact ⟨rfl, ih.capacity, ih.rank, ih.ropeDim⟩

theorem statePrefill_ready {cfg : MlaConfig F} {w : MlaBF16} {x : Nat → F} {count : Nat}
    {state : MlaCompressedState F} (hready : Ready fl cfg count 0 state) (hcount : 0 < count) :
    kvlMlaCompressedStatePrefillBf16 fl cfg w x count state =
      some { putRows fl cfg w x count state with len := count } := by
  have hroom := hready.room
  have hlen := hready.len
  have hrank := hready.rank
  have hrope := hready.ropeDim
  obtain ⟨hH, -, -, hDR, heven, -, hR, htheta⟩ := hready.ok
  have hguard : ¬ ((count : Int) ≤ 0 ∨ state.len ≠ 0 ∨ state.capacity < count ∨
      state.kvLoraRank ≠ cfg.kvLoraRank ∨ state.qkRopeDim ≠ cfg.qkRopeDim) := by
    omega
  have hdims : ¬ (cfg.hiddenSize ≤ 0 ∨ cfg.kvLoraRank ≤ 0 ∨ cfg.qkRopeDim ≤ 0 ∨
      cfg.qkRopeDim % 2 ≠ 0 ∨ thetaRefused fl cfg = true) := by
    rw [htheta]
    simp only [Bool.false_eq_true, or_false]
    omega
  unfold kvlMlaCompressedStatePrefillBf16
  rw [if_neg hguard, if_neg hdims]
  rfl

variable (fl net) in
/-- What `kvl_mla_prefill_bf16` leaves in `out` when it accepts its sizes. -/
def promptAttn (heads : Nat → F) (layer count : Nat) (workA workB : Nat → F) : Nat → F :=
  let cfg := net.cfg
  let w := (net.layer layer).attn
  let inPlace : Bool := cfg.numHeads * cfg.vHeadDim = cfg.hiddenSize
  let headSeq := prefillHeads fl cfg w workA count cfg.numHeads.toNat (if inPlace then workB else heads)
  prefillProject fl cfg w inPlace count headSeq (if inPlace then headSeq else workB)

theorem promptLayer_ready {heads : Nat → F} {layer count : Nat} {state : MlaCompressedState F}
    {work : Work F} (hready : Ready fl net.cfg count 0 state) (hcount : 0 < count) :
    let normed := blockInputNorm fl net layer count work
    promptLayer fl net heads layer count state work =
      some ({ putRows fl net.cfg (net.layer layer).attn normed.workA count state with len := count },
        blockMlp fl net layer count (blockResidualNorm fl net layer count
          { normed with workB := promptAttn fl net heads layer count normed.workA work.workB })) := by
  intro normed
  have hattn : kvlMlaPrefillBf16 fl net.cfg (net.layer layer).attn heads normed.workA count
      work.workB = some (promptAttn fl net heads layer count normed.workA work.workB) := by
    unfold kvlMlaPrefillBf16
    rw [if_neg (by rw [not_or, not_not]; exact ⟨by omega, hready.ok⟩)]
    rfl
  unfold promptLayer
  change Option.bind (kvlMlaPrefillBf16 fl net.cfg (net.layer layer).attn heads normed.workA count
    work.workB) _ = _
  rw [hattn, Option.bind_some]
  change Option.bind (kvlMlaCompressedStatePrefillBf16 fl net.cfg (net.layer layer).attn
    normed.workA count state) _ = _
  rw [statePrefill_ready hready hcount]
  rfl

theorem promptLayers_succ {heads : Nat → F} {count n : Nat} {states : MlaStates F} {work : Work F} :
    promptLayers fl net heads count states work (n + 1) =
      (promptLayers fl net heads count states work n).bind fun p =>
        (promptLayer fl net heads n count (p.1 n) p.2).map fun q =>
          (Function.update p.1 n q.1, q.2) := by
  unfold promptLayers
  rw [foldlM_range_succ]
  congr
  funext p
  change Option.bind _ _ = _
  cases promptLayer fl net heads n count (p.1 n) p.2 <;> rfl

theorem promptLayers_fills {heads : Nat → F} {count n : Nat} {states : MlaStates F} {work : Work F}
    (hready : ∀ l < n, Ready fl net.cfg count 0 (states l)) (hcount : 0 < count) :
    ∃ states' work', promptLayers fl net heads count states work n = some (states', work') ∧
      (∀ l < n, Filled count (states l) (states' l)) ∧ ∀ l, n ≤ l → states' l = states l := by
  induction n with
  | zero => exact ⟨states, work, rfl, fun l hl => absurd hl (Nat.not_lt_zero l), fun _ _ => rfl⟩
  | succ n ih =>
    obtain ⟨states₁, work₁, hlayers, hfilled, hlater⟩ :=
      ih fun l hl => hready l (Nat.lt_succ_of_lt hl)
    have hn : Ready fl net.cfg count 0 (states₁ n) := by
      rw [hlater n (Nat.le_refl n)]
      exact hready n (Nat.lt_succ_self n)
    have hlayer := @promptLayer_ready _ _ _ _ heads n _ _ work₁ hn hcount
    have hsucc := @promptLayers_succ _ _ fl net heads count n states work
    rw [hlayers, Option.bind_some, hlayer] at hsucc
    refine ⟨_, _, hsucc, ?_, ?_⟩
    · intro l hl
      rcases Nat.lt_succ_iff_lt_or_eq.mp hl with hlt | heq
      · dsimp only
        rw [Function.update_of_ne (Nat.ne_of_lt hlt)]
        exact hfilled l hlt
      · subst heq
        dsimp only
        rw [Function.update_self, ← hlater l (Nat.le_refl l)]
        exact putRows_shape count (states₁ l)
    · intro l hl
      dsimp only
      rw [Function.update_of_ne (by omega)]
      exact hlater l (by omega)

/-- A prompt of valid ids is never refused by states that have room for it. -/
theorem prefillPrompt_fills {mem : Work F} {heads : Nat → F} {states : MlaStates F}
    {prompt : List Int} {logits : Nat → F} (hprompt : prompt ≠ [])
    (hids : ∀ id ∈ prompt, validId net id = true)
    (hready : ∀ l < net.layers, Ready fl net.cfg prompt.length 0 (states l)) :
    ∃ states' logits', prefillPrompt fl net mem heads states prompt logits =
        some (states', logits') ∧
      ∀ l < net.layers, Filled prompt.length (states l) (states' l) := by
  have hpos : 0 < prompt.length := List.length_pos_iff.mpr hprompt
  obtain ⟨states', work', hlayers, hfilled, -⟩ :=
    @promptLayers_fills _ _ _ _ heads _ _ _ ({ mem with
      x := writeRows prompt.length net.hidden (fun _ t => embedding fl net (prompt.getD t 0)) mem.x }) hready hpos
  refine ⟨states', finalLogits fl net (readFrom ((prompt.length - 1) * net.hidden) work'.x) logits,
    ?_, hfilled⟩
  unfold prefillPrompt
  dsimp only
  rw [if_neg (by omega), expandBlock_rows hids]
  change Option.bind (promptLayers fl net heads prompt.length states _ net.layers) _ = _
  rw [hlayers]
  rfl

end Prompt

end Kvl

import Kvl.Mla.State

/-!
# Generation

`forward_token` takes one token through all layers. `forward_block_exact_lab`
and `exact_block_lab` take a block of tokens through one layer after another,
in three buffers with a row for each token. The tensors of the trunk are at
hand, and the MLP and the mixture of experts are functions of the row they
read. `mem` is what `malloc` returns.
-/

namespace Kvl

set_option autoImplicit false

structure LayerTensors where
  inputNorm : Nat → UInt16
  attn : MlaBF16
  postAttnNorm : Nat → UInt16

structure Trunk (F : Type*) where
  /-- `LN`. -/
  layers : Nat
  /-- `V`. -/
  vocab : Nat
  cfg : MlaConfig F
  layer : Nat → LayerTensors
  embTokens : Nat → UInt16
  finalNorm : Nat → UInt16
  lmHead : Nat → UInt16
  denseMlp : List F → Nat → F
  moeToken : Nat → List F → Nat → F

/-- The states of the layers. -/
abbrev MlaStates (F : Type*) := Nat → MlaCompressedState F

section Model
variable {F D : Type*} (fl : MlaFloats F D) (net : Trunk F)

/-- `H`. -/
def Trunk.hidden : Nat := net.cfg.hiddenSize.toNat

def validId (tokenId : Int) : Bool := 0 ≤ tokenId ∧ tokenId < net.vocab

/-- `expand` of the row of a token. -/
def embedding (tokenId : Int) : Nat → F := fun i =>
  fl.bf16ToF32 (net.embTokens (tokenId.toNat * net.hidden + i))

def mlpToken (layer : Nat) (n : Nat → F) : Nat → F :=
  if layer = 0 then net.denseMlp (row net.hidden n) else net.moeToken layer (row net.hidden n)

def rmsnormOf (x : Nat → F) (weight : Nat → UInt16) : Nat → F :=
  fl.rmsnorm (row net.hidden x) weight net.cfg.rmsEps

/-- The state, `r1` and `n2`. -/
def attentionToken (mem : Nat → F) (layer : Nat) (x : Nat → F) (position : Int)
    (state : MlaCompressedState F) : Option (MlaCompressedState F × (Nat → F) × (Nat → F)) := do
  let t := net.layer layer
  let n1 := rmsnormOf fl net x t.inputNorm
  let (attn, state) ← kvlMlaDecodeCompressedBf16 fl net.cfg t.attn 0 n1 position state mem
  let r1 := fun i => fl.add (x i) (attn i)
  pure (state, r1, rmsnormOf fl net r1 t.postAttnNorm)

/-- One layer of `forward_token`: the state and the new `x`. -/
def tokenLayer (mem : Nat → F) (layer : Nat) (position : Int) (state : MlaCompressedState F)
    (x : Nat → F) : Option (MlaCompressedState F × (Nat → F)) := do
  let (state, r1, n2) ← attentionToken fl net mem layer x position state
  let y := mlpToken net layer n2
  pure (state, fun i => fl.add (r1 i) (y i))

/-- The layers of `forward_token`. -/
def tokenLayers (mem : Nat → F) (position : Int) (states : MlaStates F) (x : Nat → F) (n : Nat) :
    Option (MlaStates F × (Nat → F)) :=
  (List.range n).foldlM (fun (states, x) layer => do
    let (state, x) ← tokenLayer fl net mem layer position (states layer) x
    pure (Function.update states layer state, x)) (states, x)

def finalLogits (x : Nat → F) (logits : Nat → F) : Nat → F :=
  let z := rmsnormOf fl net x net.finalNorm
  kvlMatvecBf16 fl.toMoeFloats 0 z net.lmHead net.cfg.hiddenSize net.vocab logits

/-- The states and the `logits` buffer. -/
def forwardToken (mem : Nat → F) (states : MlaStates F) (tokenId position : Int)
    (needLogits : Bool) (logits : Nat → F) : Option (MlaStates F × (Nat → F)) :=
  if validId net tokenId = false then none
  else do
    let x := embedding fl net tokenId
    let (states, x) ← tokenLayers fl net mem position states x net.layers
    pure (states, if needLogits then finalLogits fl net x logits else logits)

/-- `argmax_lab`: the first of the largest. -/
def argmaxLab (logits : Nat → F) : Int :=
  let best : Nat := (List.range' 1 (net.vocab - 1)).foldl (fun best i =>
    if fl.gt (logits i) (logits best) then i else best) 0
  best

/-- `forward_token` on given tokens, one after another: the states, the next
id after each, and the last logits. -/
def forwardTokens (mem : Nat → F) (states : MlaStates F) (tokenIds : List Int) (position : Int)
    (logits : Nat → F) : Option (MlaStates F × List Int × (Nat → F)) :=
  match tokenIds with
  | [] => some (states, [], logits)
  | tokenId :: tokenIds => do
    let (states, logits) ← forwardToken fl net mem states tokenId position true logits
    let (states, next, last) ← forwardTokens mem states tokenIds (position + 1) logits
    pure (states, argmaxLab fl net logits :: next, last)

/-! ### Blocks -/

/-- The three buffers of a block. -/
structure Work (F : Type*) where
  x : Nat → F
  workA : Nat → F
  workB : Nat → F

/-- `x` filled with the embeddings, until an id is refused. -/
def expandBlock (tokenIds : List Int) (x : Nat → F) : Option (Nat → F) :=
  tokenIds.zipIdx.foldlM (fun x (tokenId, t) =>
    if validId net tokenId = false then none
    else some (writeAt (t * net.hidden) net.hidden (embedding fl net tokenId) x)) x

/-- `work_a` from `x`, by the input norm. -/
def blockInputNorm (layer count : Nat) (work : Work F) : Work F :=
  { work with
    workA := writeRows count net.hidden (fun _ t =>
      rmsnormOf fl net (readFrom (t * net.hidden) work.x) (net.layer layer).inputNorm) work.workA }

/-- The residual in `work_b`, its norm in `work_a`, row by row. -/
def blockResidualNorm (layer count : Nat) (work : Work F) : Work F :=
  (List.range count).foldl (fun work t =>
    let base := t * net.hidden
    let workB := writeAt base net.hidden
      (fun i => fl.add (work.x (base + i)) (work.workB (base + i))) work.workB
    { work with
      workB := workB
      workA := writeAt base net.hidden
        (rmsnormOf fl net (readFrom base workB) (net.layer layer).postAttnNorm) work.workA }) work

/-- The MLP of `work_a` into `x`, then `work_b` added to all of it. -/
def blockMlp (layer count : Nat) (work : Work F) : Work F :=
  let x := writeRows count net.hidden (fun _ t =>
    mlpToken net layer (readFrom (t * net.hidden) work.workA)) work.x
  { work with x := writeAt 0 (count * net.hidden) (fun i => fl.add (work.workB i) (x i)) x }

/-- One layer of a block, attended to by decoding its tokens in turn. -/
def blockLayer (layer count : Nat) (startPosition : Int) (state : MlaCompressedState F)
    (work : Work F) : Option (MlaCompressedState F × Work F) := do
  let work := blockInputNorm fl net layer count work
  let (workB, state) ← kvlMlaDecodeCompressedBlockBf16 fl net.cfg (net.layer layer).attn work.workA
    count startPosition state work.workB
  let work := blockResidualNorm fl net layer count { work with workB := workB }
  pure (state, blockMlp fl net layer count work)

def blockLayers (count : Nat) (startPosition : Int) (states : MlaStates F) (work : Work F)
    (n : Nat) : Option (MlaStates F × Work F) :=
  (List.range n).foldlM (fun (states, work) layer => do
    let (state, work) ← blockLayer fl net layer count startPosition (states layer) work
    pure (Function.update states layer state, work)) (states, work)

/-- The next ids and the last logits of a block. -/
def blockNext (count : Nat) (x : Nat → F) (lastLogits : Nat → F) : List Int × (Nat → F) :=
  (List.range count).foldl (fun (next, logits) t =>
    let logits := finalLogits fl net (readFrom (t * net.hidden) x) logits
    (next ++ [argmaxLab fl net logits], logits)) ([], lastLogits)

/-- The states that a block of `count` tokens at `start_position` is refused for. -/
def blockRefused (count : Nat) (startPosition : Int) (states : MlaStates F) : Bool :=
  (List.range net.layers).any fun layer =>
    (states layer).len ≠ startPosition ∨ (states layer).capacity - startPosition < count

def forwardBlockExactLab (mem : Work F) (states : MlaStates F) (tokenIds : List Int)
    (startPosition : Int) (lastLogits : Nat → F) :
    Option (MlaStates F × List Int × (Nat → F)) :=
  let count := tokenIds.length
  if count = 0 ∨ startPosition < 0 then none
  else if tokenIds.all (validId net) = false then none
  else if blockRefused net count startPosition states then none
  else do
    let x := writeRows count net.hidden (fun _ t => embedding fl net (tokenIds.getD t 0)) mem.x
    let (states, work) ← blockLayers fl net count startPosition states { mem with x := x } net.layers
    let (next, logits) := blockNext fl net count work.x lastLogits
    pure (states, next, logits)

/-- The ids are checked one by one, as their rows are filled. -/
def exactBlockLab (mem : Work F) (states : MlaStates F) (tokenIds : List Int)
    (startPosition : Int) (lastLogits : Nat → F) :
    Option (MlaStates F × List Int × (Nat → F)) :=
  let count := tokenIds.length
  if count = 0 ∨ startPosition < 0 then none
  else if blockRefused net count startPosition states then none
  else do
    let x ← expandBlock fl net tokenIds mem.x
    let (states, work) ← blockLayers fl net count startPosition states { mem with x := x } net.layers
    let (next, logits) := blockNext fl net count work.x lastLogits
    pure (states, next, logits)

end Model

end Kvl

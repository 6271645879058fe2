import Kvl.Api.Plan
import Kvl.Lib.HeapTrace
import Kvl.Store.Format

/-!
# The buffers of the text generator

The allocations and releases of `generate.c` over a run, with the sizes that
`planned_text_breakdown` accounts for: the expert arena, the trunk tensors, the
compressed states, the buffers of `main` and of the prefill. The temporaries of
one decoded token and the tables of the stores are left out, and every load and
every allocation succeeds.
-/

namespace Kvl.Footprint

set_option autoImplicit false

open HeapTrace

def H : Nat := 2048
def NH : Nat := 16
def DN : Nat := 128
def DR : Nat := 64
def DV : Nat := 128
def R : Nat := 512
def LN : Nat := 27
def V : Nat := 163840
def E : Nat := 64
def TOPK : Nat := 6
def DENSE_I : Nat := 11264
def SHARED_I : Nat := 2816

def sizeofFloat : Nat := 4
def sizeofInt : Nat := 4
def sizeofDouble : Nat := 8

/-! ### Trunk tensors -/

inductive TensorKind
  | embedTokens | finalNorm | lmHead
  | inputNorm | postAttnNorm | qProj | kvAProj | kvANorm | kvBProj | oProj
  | denseGate | denseUp | denseDown
  | routerWeight | routerBias | sharedGate | sharedUp | sharedDown
  deriving DecidableEq, Repr

/-- The number of weights of a tensor. -/
def TensorKind.elems : TensorKind → Nat
  | .embedTokens | .lmHead => V * H
  | .finalNorm | .inputNorm | .postAttnNorm => H
  | .qProj => NH * (DN + DR) * H
  | .kvAProj => (R + DR) * H
  | .kvANorm => R
  | .kvBProj => NH * (DN + DV) * R
  | .oProj => H * (NH * DV)
  | .denseGate | .denseUp | .denseDown => DENSE_I * H
  | .routerWeight => E * H
  | .routerBias => E
  | .sharedGate | .sharedUp | .sharedDown => SHARED_I * H

def trunkAlignBytes : Nat := 4096

def alignUpTrunk (n : Nat) : Nat := (n + trunkAlignBytes - 1) / trunkAlignBytes * trunkAlignBytes

/-- `read_bytes` as `pack_trunk.py` writes it: bfloat16, padded to the alignment. -/
def TensorKind.readBytes (kind : TensorKind) : Nat := alignUpTrunk (2 * kind.elems)

/-- What the trunk cache holds; `none` is `KVL_TRUNK_GLOBAL_LAYER`. -/
structure TrunkUse where
  budget : Nat
  cacheBytes : Nat
  cached : List (Option Nat × TensorKind)

def openTrunkUse (trunkCacheMib : Nat) : TrunkUse := ⟨trunkCacheMib * Plan.MIB, 0, []⟩

/-- The sizes that loads have allocated, and of these the ones that the tensors own. -/
structure Loaded where
  use : TrunkUse
  allocated : List Nat
  owned : List Nat

/-- `kvl_trunk_load` -/
def loadTensor (u : TrunkUse) (layer : Option Nat) (kind : TensorKind) : Loaded :=
  if (layer, kind) ∈ u.cached then ⟨u, [], []⟩
  else if layer ≠ none ∧ 0 < u.budget ∧ kind.readBytes ≤ u.budget - u.cacheBytes then
    ⟨⟨u.budget, u.cacheBytes + kind.readBytes, (layer, kind) :: u.cached⟩, [kind.readBytes], []⟩
  else ⟨u, [kind.readBytes], [kind.readBytes]⟩

def loadTensors (u : TrunkUse) (layer : Option Nat) : List TensorKind → Loaded
  | [] => ⟨u, [], []⟩
  | kind :: kinds =>
    let one := loadTensor u layer kind
    let rest := loadTensors one.use layer kinds
    ⟨rest.use, one.allocated ++ rest.allocated, one.owned ++ rest.owned⟩

/-- Tensors that are loaded, used and given back. -/
def withTensors (u : TrunkUse) (layer : Option Nat) (kinds : List TensorKind)
    (body : List HeapEvent) : TrunkUse × List HeapEvent :=
  let tensors := loadTensors u layer kinds
  (tensors.use, allocs tensors.allocated ++ body ++ frees tensors.owned)

def globalKinds : List TensorKind := [.embedTokens, .finalNorm, .lmHead]

def attentionKinds : List TensorKind :=
  [.inputNorm, .qProj, .kvAProj, .kvANorm, .kvBProj, .oProj, .postAttnNorm]

def denseKinds : List TensorKind := [.denseGate, .denseUp, .denseDown]

def moeKinds : List TensorKind := [.routerWeight, .routerBias, .sharedGate, .sharedUp, .sharedDown]

def mlpKinds (layer : Nat) : List TensorKind := if layer = 0 then denseKinds else moeKinds

/-! ### Prefill -/

/-- The workers of `kvl_mla_prefill_bf16`. -/
def workerCount (maxThreads S : Nat) : Nat :=
  let workers := if maxThreads < 1 then 1 else maxThreads
  if S < workers then S else workers

/-- The buffers of `kvl_mla_prefill_bf16`, with `HO = H`. -/
def streamingWorkspace (workers S : Nat) : List Nat :=
  [S * R * sizeofFloat, S * DR * sizeofFloat, S * DN * sizeofFloat, S * DV * sizeofFloat,
    workers * S * sizeofFloat, workers * (DN + DR) * sizeofFloat, (R + DR) * sizeofFloat,
    (DN + DV) * sizeofFloat, workers * DR * sizeofFloat, NH * DV * sizeofFloat,
    workers * DV * sizeofDouble]

/-- `katmp` of `kvl_mla_compressed_state_prefill_bf16`. -/
def compressedPrefillWorkspace : List Nat := [(R + DR) * sizeofFloat]

def prefillAttention (workers S : Nat) : List HeapEvent :=
  (allocs (streamingWorkspace workers S) ++ [] ++ frees (streamingWorkspace workers S)) ++
    (allocs compressedPrefillWorkspace ++ [] ++ frees compressedPrefillWorkspace)

/-- One layer, with what happens while its attention tensors are loaded. -/
def layerPass (attention : List HeapEvent) (u : TrunkUse) (layer : Nat) :
    TrunkUse × List HeapEvent :=
  let attn := withTensors u (some layer) attentionKinds attention
  let mlp := withTensors attn.1 (some layer) (mlpKinds layer) []
  (mlp.1, attn.2 ++ mlp.2)

/-- The first `n` layers. -/
def layerPasses (attention : List HeapEvent) (u : TrunkUse) : Nat → TrunkUse × List HeapEvent
  | 0 => (u, [])
  | n + 1 =>
    let before := layerPasses attention u n
    let pass := layerPass attention before.1 n
    (pass.1, before.2 ++ pass.2)

/-- `x`, `work_a` and `work_b` -/
def activationBuffers (S : Nat) : List Nat :=
  [S * H * sizeofFloat, S * H * sizeofFloat, S * H * sizeofFloat]

def prefillPrompt (workers S : Nat) (u : TrunkUse) : TrunkUse × List HeapEvent :=
  let passes := layerPasses (prefillAttention workers S) u LN
  (passes.1, allocs (activationBuffers S) ++ passes.2 ++ frees (activationBuffers S))

/-! ### The run -/

/-- `forward_token` for each of the tokens. -/
def forwardTokens (u : TrunkUse) : Nat → TrunkUse × List HeapEvent
  | 0 => (u, [])
  | n + 1 =>
    let before := forwardTokens u n
    let token := layerPasses [] before.1 LN
    (token.1, before.2 ++ token.2)

/-- `latent` and `rope` of one layer. -/
def stateBuffers (capacity : Nat) : List Nat :=
  [capacity * R * sizeofFloat, capacity * DR * sizeofFloat]

def compressedStates (capacity : Nat) : List Nat :=
  (List.replicate LN (stateBuffers capacity)).flatten

/-- The buffers from `logits` to `scratch`. -/
def mainBuffers : List Nat :=
  [V * sizeofFloat, H * sizeofFloat, H * sizeofFloat, H * sizeofFloat, H * sizeofFloat,
    H * sizeofFloat, E * H * sizeofFloat, E * sizeofFloat, TOPK * sizeofInt, TOPK * sizeofFloat,
    (3 * DENSE_I + H) * sizeofFloat]

/-- The arguments of a run, and what its environment decides. -/
structure GenerateRun where
  promptTokens : Nat
  maxNew : Nat
  cacheMib : Nat
  trunkCacheMib : Nat
  /-- The aligned size of the largest expert record. -/
  slotBytes : Nat
  maxThreads : Nat
  /-- The tokens after the first one, before an end token or `max_new`. -/
  forwarded : Nat

/-- `cache_bytes`, where `strtoull` ends at `ULLONG_MAX`. -/
def GenerateRun.cacheBytes (run : GenerateRun) : Nat := min (run.cacheMib * Plan.MIB) (2 ^ 64 - 1)

/-- `n_slots` -/
def GenerateRun.slots (run : GenerateRun) : Int := cInt (run.cacheBytes / run.slotBytes)

/-- `arena_bytes` -/
def GenerateRun.arenaBytes (run : GenerateRun) : Nat := run.slots.toNat * run.slotBytes

/-- What `main` holds from before the prefill to the end. -/
def GenerateRun.heldBuffers (run : GenerateRun) : List Nat :=
  [run.arenaBytes] ++ globalKinds.map TensorKind.readBytes ++
    compressedStates (run.promptTokens + run.maxNew) ++ mainBuffers

/-- `main`; `none` if it returns before the prefill. -/
def generate (run : GenerateRun) : Option (List HeapEvent) :=
  if run.maxNew < 1 ∨ run.promptTokens = 0 ∨ run.slots < 1 then none
  else
    let u := openTrunkUse run.trunkCacheMib
    let globals := loadTensors u none globalKinds
    let prefill := prefillPrompt (workerCount run.maxThreads run.promptTokens) run.promptTokens
      globals.use
    let decode := forwardTokens prefill.1 run.forwarded
    let held := [run.arenaBytes] ++ globals.allocated ++
      compressedStates (run.promptTokens + run.maxNew) ++ mainBuffers
    some (allocs held ++ (prefill.2 ++ decode.2) ++ frees held ++ frees [decode.1.cacheBytes])

/-- The largest sum of the sizes of the buffers that are live at once. -/
def largestLive (events : List HeapEvent) : Nat := peak 0 events

/-! ### Loads -/

/-- Bytes that a list of tensors takes when none of them is cached. -/
def readSum (kinds : List TensorKind) : Nat := (kinds.map TensorKind.readBytes).sum

/-- What loads do to the cache and to the heap. -/
structure Loaded.Accounts (u : TrunkUse) (most : Nat) (t : Loaded) : Prop where
  budget : t.use.budget = u.budget
  grows : u.cacheBytes ≤ t.use.cacheBytes
  inBudget : u.cacheBytes ≤ u.budget → t.use.cacheBytes ≤ u.budget
  balance : t.use.cacheBytes + t.owned.sum = u.cacheBytes + t.allocated.sum
  allocated_le : t.allocated.sum ≤ most

theorem loadTensor_accounts (u : TrunkUse) (layer : Option Nat) (kind : TensorKind) :
    (loadTensor u layer kind).Accounts u kind.readBytes := by
  unfold loadTensor
  split
  · exact ⟨rfl, Nat.le_refl _, fun h => h, rfl, Nat.zero_le _⟩
  · split
    · rename_i heligible
      refine ⟨rfl, Nat.le_add_right _ _, ?_, ?_, ?_⟩
      · intro h
        have hfits := heligible.2.2
        change u.cacheBytes + kind.readBytes ≤ u.budget
        omega
      · simp
      · simp
    · exact ⟨rfl, Nat.le_refl _, fun h => h, rfl, by simp⟩

theorem loadTensors_cons (u : TrunkUse) (layer : Option Nat) (kind : TensorKind)
    (kinds : List TensorKind) :
    loadTensors u layer (kind :: kinds) =
      ⟨(loadTensors (loadTensor u layer kind).use layer kinds).use,
        (loadTensor u layer kind).allocated ++
          (loadTensors (loadTensor u layer kind).use layer kinds).allocated,
        (loadTensor u layer kind).owned ++
          (loadTensors (loadTensor u layer kind).use layer kinds).owned⟩ := rfl

theorem loadTensors_accounts (u : TrunkUse) (layer : Option Nat) (kinds : List TensorKind) :
    (loadTensors u layer kinds).Accounts u (readSum kinds) := by
  induction kinds generalizing u with
  | nil => exact ⟨rfl, Nat.le_refl _, fun h => h, rfl, Nat.le_refl _⟩
  | cons kind kinds ih =>
    have hone := loadTensor_accounts u layer kind
    have hrest := ih (loadTensor u layer kind).use
    have hsum : readSum (kind :: kinds) = kind.readBytes + readSum kinds := List.sum_cons
    have hbalance := hone.balance
    have hbalance' := hrest.balance
    have hle := hone.allocated_le
    have hle' := hrest.allocated_le
    refine ⟨hrest.budget.trans hone.budget, hone.grows.trans hrest.grows, ?_, ?_, ?_⟩
    · intro h
      have h' := hone.inBudget h
      rw [← hone.budget] at h' ⊢
      exact hrest.inBudget h'
    · rw [loadTensors_cons]
      simp only [List.sum_append]
      omega
    · rw [loadTensors_cons]
      simp only [List.sum_append]
      omega

/-- Global tensors are never cached. -/
theorem loadTensors_global (u : TrunkUse) (kinds : List TensorKind)
    (hfresh : ∀ kind ∈ kinds, (none, kind) ∉ u.cached) :
    loadTensors u none kinds =
      ⟨u, kinds.map TensorKind.readBytes, kinds.map TensorKind.readBytes⟩ := by
  induction kinds with
  | nil => rfl
  | cons kind kinds ih =>
    have hone : loadTensor u none kind = ⟨u, [kind.readBytes], [kind.readBytes]⟩ := by
      unfold loadTensor
      rw [if_neg (hfresh kind List.mem_cons_self), if_neg fun h => h.1 rfl]
    have hrest := ih fun k hk => hfresh k (List.mem_cons_of_mem _ hk)
    rw [loadTensors_cons, hone, hrest]
    rfl

/-! ### Live bytes of a run -/

/-- A piece of the run that gives back what it takes, and takes at most `need` bytes. -/
def Neutral (run : List HeapEvent) (need : Nat) : Prop :=
  ∀ live bound, live + need ≤ bound → Stretch run live live bound

theorem neutral_nil : Neutral [] 0 := fun _ _ h => .nil h

theorem prefillAttention_neutral (workers S : Nat) :
    Neutral (prefillAttention workers S) (streamingWorkspace workers S).sum := by
  intro live bound h
  have hsmall : compressedPrefillWorkspace.sum ≤ (streamingWorkspace workers S).sum := by
    simp only [compressedPrefillWorkspace, streamingWorkspace, List.sum_cons, List.sum_nil]
    omega
  exact (Stretch.nil h).within.append (Stretch.nil (by omega)).within

theorem withTensors_stretch {u : TrunkUse} {layer : Option Nat} {kinds : List TensorKind}
    {body : List HeapEvent} {need base bound : Nat} (hbody : Neutral body need)
    (hfits : base + u.cacheBytes + readSum kinds + need ≤ bound) :
    Stretch (withTensors u layer kinds body).2 (base + u.cacheBytes)
      (base + (withTensors u layer kinds body).1.cacheBytes) bound := by
  have hloads := loadTensors_accounts u layer kinds
  have hle := hloads.allocated_le
  have hbalance := hloads.balance
  change Stretch (allocs _ ++ body ++ frees _) _ (base + (loadTensors u layer kinds).use.cacheBytes)
    bound
  generalize loadTensors u layer kinds = tensors at hle hbalance ⊢
  have hloaded : base + u.cacheBytes + tensors.allocated.sum =
      base + tensors.use.cacheBytes + tensors.owned.sum := by omega
  refine ((Stretch.allocs (by omega)).append (hbody _ _ (by omega))).append ?_
  rw [hloaded]
  exact .frees (by omega)

theorem readSum_mlpKinds_le (layer : Nat) : readSum (mlpKinds layer) ≤ readSum denseKinds := by
  unfold mlpKinds
  split
  · exact Nat.le_refl _
  · decide +kernel

theorem layerPass_use (attention : List HeapEvent) (u : TrunkUse) (layer : Nat) :
    (layerPass attention u layer).1 =
      (loadTensors (loadTensors u (some layer) attentionKinds).use (some layer)
        (mlpKinds layer)).use := by
  simp only [layerPass, withTensors]

theorem withTensors_use (u : TrunkUse) (layer : Option Nat) (kinds : List TensorKind)
    (body : List HeapEvent) :
    (withTensors u layer kinds body).1 = (loadTensors u layer kinds).use := rfl

/-- The trunk cache at the end of a pass and of the loads of its attention. -/
theorem layerPass_accounts (attention : List HeapEvent) (u : TrunkUse) (layer : Nat)
    (hu : u.cacheBytes ≤ u.budget) :
    (layerPass attention u layer).1.budget = u.budget ∧
      u.cacheBytes ≤ (layerPass attention u layer).1.cacheBytes ∧
      (layerPass attention u layer).1.cacheBytes ≤ u.budget ∧
      (withTensors u (some layer) attentionKinds attention).1.cacheBytes ≤ u.budget := by
  rw [layerPass_use, withTensors_use]
  have hattn := loadTensors_accounts u (some layer) attentionKinds
  generalize loadTensors u (some layer) attentionKinds = attn at hattn ⊢
  have hmlp := loadTensors_accounts attn.use (some layer) (mlpKinds layer)
  generalize loadTensors attn.use (some layer) (mlpKinds layer) = mlp at hmlp ⊢
  have hin := hattn.inBudget hu
  have hin' := hmlp.inBudget
  rw [hattn.budget] at hin'
  exact ⟨hmlp.budget.trans hattn.budget, hattn.grows.trans hmlp.grows, hin' hin, hin⟩

theorem layerPass_stretch {attention : List HeapEvent} {need base bound : Nat} {u : TrunkUse}
    {layer : Nat} (hattention : Neutral attention need) (hu : u.cacheBytes ≤ u.budget)
    (hattn : base + u.cacheBytes + readSum attentionKinds + need ≤ bound)
    (hmlp : base + u.budget + readSum denseKinds ≤ bound) :
    Stretch (layerPass attention u layer).2 (base + u.cacheBytes)
      (base + (layerPass attention u layer).1.cacheBytes) bound := by
  have hin := (layerPass_accounts attention u layer hu).2.2.2
  have hle := readSum_mlpKinds_le layer
  exact (withTensors_stretch hattention hattn).append
    (withTensors_stretch neutral_nil (by omega))

theorem layerPasses_succ (attention : List HeapEvent) (u : TrunkUse) (n : Nat) :
    layerPasses attention u (n + 1) =
      ((layerPass attention (layerPasses attention u n).1 n).1,
        (layerPasses attention u n).2 ++ (layerPass attention (layerPasses attention u n).1 n).2) := by
  rw [layerPasses]

theorem layerPasses_accounts (attention : List HeapEvent) {u : TrunkUse}
    (hu : u.cacheBytes ≤ u.budget) (n : Nat) :
    (layerPasses attention u n).1.budget = u.budget ∧
      u.cacheBytes ≤ (layerPasses attention u n).1.cacheBytes ∧
      (layerPasses attention u n).1.cacheBytes ≤ u.budget := by
  induction n with
  | zero => exact ⟨rfl, Nat.le_refl _, hu⟩
  | succ n ih =>
    have hstep := layerPass_accounts attention (layerPasses attention u n).1 n (by omega)
    rw [layerPasses_succ]
    dsimp only
    omega

theorem layerPasses_mono (attention : List HeapEvent) {u : TrunkUse}
    (hu : u.cacheBytes ≤ u.budget) {n m : Nat} (h : n ≤ m) :
    (layerPasses attention u n).1.cacheBytes ≤ (layerPasses attention u m).1.cacheBytes := by
  induction m, h using Nat.le_induction with
  | base => exact Nat.le_refl _
  | succ m _ ih =>
    have hm := layerPasses_accounts attention hu m
    exact ih.trans (layerPass_accounts attention _ m (by omega)).2.1

theorem layerPasses_stretch {attention : List HeapEvent} {need base bound : Nat} {u : TrunkUse}
    (hattention : Neutral attention need) (hu : u.cacheBytes ≤ u.budget) (n : Nat)
    (hattn : ∀ layer < n, base + (layerPasses attention u layer).1.cacheBytes +
      readSum attentionKinds + need ≤ bound)
    (hmlp : base + u.budget + readSum denseKinds ≤ bound) :
    Stretch (layerPasses attention u n).2 (base + u.cacheBytes)
      (base + (layerPasses attention u n).1.cacheBytes) bound := by
  induction n with
  | zero => exact .nil (show base + u.cacheBytes ≤ bound by omega)
  | succ n ih =>
    have hn := layerPasses_accounts attention hu n
    have hin : (layerPasses attention u n).1.cacheBytes ≤ (layerPasses attention u n).1.budget := by
      omega
    have hpass := @layerPass_stretch attention need base bound (layerPasses attention u n).1 n
      hattention hin (hattn n (Nat.lt_succ_self n)) (by omega)
    rw [layerPasses_succ]
    exact (ih fun layer h => hattn layer (Nat.lt_succ_of_lt h)).append hpass

theorem prefillPrompt_eq (workers S : Nat) (u : TrunkUse) :
    prefillPrompt workers S u =
      ((layerPasses (prefillAttention workers S) u LN).1,
        allocs (activationBuffers S) ++ (layerPasses (prefillAttention workers S) u LN).2 ++
          frees (activationBuffers S)) := by
  rw [prefillPrompt]

theorem prefillPrompt_stretch {workers S base bound : Nat} {u : TrunkUse}
    (hu : u.cacheBytes ≤ u.budget)
    (hattn : ∀ layer < LN, base + (activationBuffers S).sum +
      (layerPasses (prefillAttention workers S) u layer).1.cacheBytes + readSum attentionKinds +
      (streamingWorkspace workers S).sum ≤ bound)
    (hmlp : base + (activationBuffers S).sum + u.budget + readSum denseKinds ≤ bound) :
    Stretch (prefillPrompt workers S u).2 (base + u.cacheBytes)
      (base + (prefillPrompt workers S u).1.cacheBytes) bound := by
  have hpasses := layerPasses_stretch (prefillAttention_neutral workers S) hu LN hattn hmlp
  rw [prefillPrompt_eq]
  dsimp only
  apply Stretch.within
  have hswap : ∀ n, base + n + (activationBuffers S).sum = base + (activationBuffers S).sum + n :=
    fun n => Nat.add_right_comm _ _ _
  rw [hswap, hswap]
  exact hpasses

theorem forwardTokens_succ (u : TrunkUse) (n : Nat) :
    forwardTokens u (n + 1) =
      ((layerPasses [] (forwardTokens u n).1 LN).1,
        (forwardTokens u n).2 ++ (layerPasses [] (forwardTokens u n).1 LN).2) := by
  rw [forwardTokens]

theorem forwardTokens_accounts {u : TrunkUse} (hu : u.cacheBytes ≤ u.budget) (n : Nat) :
    (forwardTokens u n).1.budget = u.budget ∧ (forwardTokens u n).1.cacheBytes ≤ u.budget := by
  induction n with
  | zero => exact ⟨rfl, hu⟩
  | succ n ih =>
    have hin : (forwardTokens u n).1.cacheBytes ≤ (forwardTokens u n).1.budget := by omega
    have htoken := layerPasses_accounts [] hin LN
    rw [forwardTokens_succ]
    dsimp only
    exact ⟨htoken.1.trans ih.1, htoken.2.2.trans (Nat.le_of_eq ih.1)⟩

theorem readSum_attentionKinds_le : readSum attentionKinds ≤ readSum denseKinds := by
  decide +kernel

theorem forwardTokens_stretch {base bound : Nat} {u : TrunkUse} (hu : u.cacheBytes ≤ u.budget)
    (hfits : base + u.budget + readSum denseKinds ≤ bound) (n : Nat) :
    Stretch (forwardTokens u n).2 (base + u.cacheBytes)
      (base + (forwardTokens u n).1.cacheBytes) bound := by
  induction n with
  | zero => exact .nil (show base + u.cacheBytes ≤ bound by omega)
  | succ n ih =>
    have hn := forwardTokens_accounts hu n
    have hin : (forwardTokens u n).1.cacheBytes ≤ (forwardTokens u n).1.budget := by omega
    have hle := readSum_attentionKinds_le
    have htoken : ∀ layer < LN, base + (layerPasses [] (forwardTokens u n).1 layer).1.cacheBytes +
        readSum attentionKinds + 0 ≤ bound := by
      intro layer _
      have hlayer := layerPasses_accounts [] hin layer
      omega
    rw [forwardTokens_succ]
    dsimp only
    exact ih.append (layerPasses_stretch neutral_nil hin LN htoken (by omega))

/-! ### The trunk cache of a prefill -/

/-- What a budget keeps of buffers that come in order, each kept if it still fits. -/
def fillInOrder (budget used : Nat) (sizes : List Nat) : Nat :=
  sizes.foldl (fun used n => if n ≤ budget - used then used + n else used) used

theorem fillInOrder_append (budget used : Nat) (sizes sizes' : List Nat) :
    fillInOrder budget used (sizes ++ sizes') =
      fillInOrder budget (fillInOrder budget used sizes) sizes' := List.foldl_append

/-- The tensors of one layer in the order of their loads. -/
def layerSizes (layer : Nat) : List Nat := (attentionKinds ++ mlpKinds layer).map TensorKind.readBytes

/-- The bytes of layers before the given one that the trunk cache keeps. -/
def cachedBefore (trunkCacheMib layer : Nat) : Nat :=
  fillInOrder (trunkCacheMib * Plan.MIB) 0 ((List.range layer).flatMap layerSizes)

theorem readBytes_pos (kind : TensorKind) : 0 < kind.readBytes := by
  cases kind <;> decide +kernel

theorem loadTensor_fresh {u : TrunkUse} {layer : Nat} {kind : TensorKind}
    (hfresh : (some layer, kind) ∉ u.cached) :
    (loadTensor u (some layer) kind).allocated = [kind.readBytes] ∧
      (loadTensor u (some layer) kind).use.cacheBytes =
        fillInOrder u.budget u.cacheBytes [kind.readBytes] ∧
      (loadTensor u (some layer) kind).use.cached ⊆ (some layer, kind) :: u.cached := by
  have hpos := readBytes_pos kind
  unfold loadTensor fillInOrder
  rw [if_neg hfresh]
  simp only [List.foldl_cons, List.foldl_nil]
  by_cases hfits : kind.readBytes ≤ u.budget - u.cacheBytes
  · rw [if_pos ⟨by simp, by omega, hfits⟩, if_pos hfits]
    exact ⟨rfl, rfl, fun _ h => h⟩
  · rw [if_neg fun h => hfits h.2.2, if_neg hfits]
    exact ⟨rfl, rfl, List.subset_cons_self _ _⟩

theorem loadTensors_fresh {u : TrunkUse} {layer : Nat} {kinds : List TensorKind}
    (hnodup : kinds.Nodup) (hfresh : ∀ kind ∈ kinds, (some layer, kind) ∉ u.cached) :
    (loadTensors u (some layer) kinds).allocated = kinds.map TensorKind.readBytes ∧
      (loadTensors u (some layer) kinds).use.cacheBytes =
        fillInOrder u.budget u.cacheBytes (kinds.map TensorKind.readBytes) ∧
      ∀ key ∈ (loadTensors u (some layer) kinds).use.cached,
        key ∈ u.cached ∨ ∃ kind ∈ kinds, key = (some layer, kind) := by
  induction kinds generalizing u with
  | nil => exact ⟨rfl, rfl, fun _ h => .inl h⟩
  | cons kind kinds ih =>
    obtain ⟨hnot, hnodup⟩ := List.nodup_cons.mp hnodup
    obtain ⟨halloc, hbytes, hcached⟩ := loadTensor_fresh (hfresh kind List.mem_cons_self)
    have hbudget := (loadTensor_accounts u (some layer) kind).budget
    have hfresh' : ∀ k ∈ kinds, (some layer, k) ∉ (loadTensor u (some layer) kind).use.cached := by
      intro k hk hmem
      rcases List.mem_cons.mp (hcached hmem) with heq | hold
      · exact hnot ((Prod.mk.inj heq).2 ▸ hk)
      · exact hfresh k (List.mem_cons_of_mem _ hk) hold
    obtain ⟨hallocs, hbytes', hcached'⟩ := ih hnodup hfresh'
    rw [loadTensors_cons]
    refine ⟨?_, ?_, ?_⟩
    · dsimp only
      rw [halloc, hallocs]
      rfl
    · dsimp only
      rw [hbytes', hbudget, hbytes, ← fillInOrder_append]
      rfl
    · intro key hkey
      rcases hcached' key hkey with hold | ⟨k, hk, heq⟩
      · rcases List.mem_cons.mp (hcached hold) with heq | hold
        · exact .inr ⟨kind, List.mem_cons_self, heq⟩
        · exact .inl hold
      · exact .inr ⟨k, List.mem_cons_of_mem _ hk, heq⟩

theorem attentionKinds_nodup : attentionKinds.Nodup := by decide

theorem mlpKinds_nodup (layer : Nat) : (mlpKinds layer).Nodup := by
  unfold mlpKinds
  split
  · decide
  · decide

theorem attentionKinds_disjoint (layer : Nat) : ∀ kind ∈ mlpKinds layer, kind ∉ attentionKinds := by
  unfold mlpKinds
  split
  · decide
  · decide

/-- A prefill finds no tensor in the cache, as each is loaded once. -/
theorem layerPasses_fresh (attention : List HeapEvent) (trunkCacheMib n : Nat) :
    (layerPasses attention (openTrunkUse trunkCacheMib) n).1.cacheBytes =
        cachedBefore trunkCacheMib n ∧
      ∀ key ∈ (layerPasses attention (openTrunkUse trunkCacheMib) n).1.cached,
        ∃ layer < n, key.1 = some layer := by
  induction n with
  | zero => exact ⟨rfl, fun _ h => absurd h List.not_mem_nil⟩
  | succ n ih =>
    obtain ⟨hbytes, hcached⟩ := ih
    have hopen : (openTrunkUse trunkCacheMib).cacheBytes ≤ (openTrunkUse trunkCacheMib).budget :=
      Nat.zero_le _
    have hbudget := (layerPasses_accounts attention hopen n).1
    rw [layerPasses_succ]
    dsimp only
    rw [layerPass_use]
    generalize (layerPasses attention (openTrunkUse trunkCacheMib) n).1 = u
      at hbytes hcached hbudget ⊢
    have hnew : ∀ kind, (some n, kind) ∉ u.cached := by
      intro kind hmem
      obtain ⟨layer, hlt, heq⟩ := hcached _ hmem
      cases heq
      exact Nat.lt_irrefl _ hlt
    obtain ⟨_, hattn, hattnCached⟩ := loadTensors_fresh attentionKinds_nodup fun k _ => hnew k
    have hattnBudget := (loadTensors_accounts u (some n) attentionKinds).budget
    generalize (loadTensors u (some n) attentionKinds).use = v at hattn hattnCached hattnBudget ⊢
    have hfresh : ∀ kind ∈ mlpKinds n, (some n, kind) ∉ v.cached := by
      intro kind hkind hmem
      rcases hattnCached _ hmem with hold | ⟨k, hk, heq⟩
      · exact hnew kind hold
      · cases heq
        exact attentionKinds_disjoint n kind hkind hk
    obtain ⟨_, hmlp, hmlpCached⟩ := loadTensors_fresh (mlpKinds_nodup n) hfresh
    constructor
    · rw [hmlp, hattn, hattnBudget, hbudget, hbytes, ← fillInOrder_append, ← List.map_append]
      unfold cachedBefore
      rw [List.range_succ, List.flatMap_append, fillInOrder_append, List.flatMap_singleton]
      rfl
    · intro key hkey
      rcases hmlpCached key hkey with hold | ⟨k, _, rfl⟩
      · rcases hattnCached key hold with hold | ⟨k, _, rfl⟩
        · obtain ⟨layer, hlt, heq⟩ := hcached key hold
          exact ⟨layer, Nat.lt_succ_of_lt hlt, heq⟩
        · exact ⟨n, Nat.lt_succ_self n, rfl⟩
      · exact ⟨n, Nat.lt_succ_self n, rfl⟩

/-! ### The plan -/

def GenerateRun.workers (run : GenerateRun) : Nat := workerCount run.maxThreads run.promptTokens

/-- The score row and the vectors of one worker. -/
def workerBytes (S : Nat) : Nat :=
  S * sizeofFloat + (DN + DR) * sizeofFloat + DR * sizeofFloat + DV * sizeofDouble

/-- The workers after the first one fit in what the plan leaves over when the
attention of the last layer runs. -/
def GenerateRun.WorkersFit (run : GenerateRun) : Prop :=
  (run.workers - 1) * workerBytes run.promptTokens + run.arenaBytes +
      cachedBefore run.trunkCacheMib (LN - 1) + readSum attentionKinds + mainBuffers.sum ≤
    run.cacheMib * Plan.MIB + run.trunkCacheMib * Plan.MIB + Plan.PEAK_LAYER_BF16_BYTES +
      Plan.RUNTIME_MISC_SAFETY

instance (run : GenerateRun) : Decidable run.WorkersFit := inferInstanceAs (Decidable (_ ≤ _))

theorem workers_pos {run : GenerateRun} (h : run.promptTokens ≠ 0) : 1 ≤ run.workers := by
  unfold GenerateRun.workers workerCount
  dsimp only
  split_ifs <;> omega

theorem arenaBytes_le (run : GenerateRun) : run.arenaBytes ≤ run.cacheMib * Plan.MIB := by
  have hslots : run.slots.toNat ≤ run.cacheBytes / run.slotBytes :=
    Int.toNat_le.mpr (cInt_le _)
  calc run.slots.toNat * run.slotBytes
      ≤ run.cacheBytes / run.slotBytes * run.slotBytes := Nat.mul_le_mul_right _ hslots
    _ ≤ run.cacheBytes := Nat.div_mul_le_self _ _
    _ ≤ run.cacheMib * Plan.MIB := Nat.min_le_left _ _

theorem compressedStates_sum (capacity : Nat) :
    (compressedStates capacity).sum = 27 * capacity * 576 * 4 := by
  unfold compressedStates stateBuffers
  rw [List.sum_flatten, List.map_replicate, List.sum_replicate]
  simp only [LN, R, DR, sizeofFloat, List.sum_cons, List.sum_nil, smul_eq_mul]
  ring

theorem heldBuffers_sum (run : GenerateRun) :
    run.heldBuffers.sum = run.arenaBytes + Plan.GLOBAL_BF16_BYTES +
      27 * (run.promptTokens + run.maxNew) * 576 * 4 + mainBuffers.sum := by
  have hglobals : (globalKinds.map TensorKind.readBytes).sum = Plan.GLOBAL_BF16_BYTES := by
    decide +kernel
  unfold GenerateRun.heldBuffers
  rw [List.sum_append, List.sum_append, List.sum_append, hglobals, compressedStates_sum,
    List.sum_singleton]

/-- The workspace is the one of the plan with more workers. -/
theorem streamingWorkspace_sum {workers : Nat} (S : Nat) (h : 1 ≤ workers) :
    (streamingWorkspace workers S).sum =
      Plan.streamingMlaWorkspaceBytes S + (workers - 1) * workerBytes S := by
  obtain ⟨more, rfl⟩ := Nat.exists_eq_add_of_le h
  rw [Nat.add_sub_cancel_left]
  simp only [streamingWorkspace, Plan.streamingMlaWorkspaceBytes, workerBytes, NH, DN, DR, DV, R,
    sizeofFloat, sizeofDouble, Plan.KV_LATENT_PLUS_ROPE, Plan.KV_LATENT, Plan.QK_NOPE,
    Plan.QK_ROPE, Plan.VALUE_HEAD, Plan.HEADS, Plan.FP32_BYTES, List.sum_cons, List.sum_nil]
  ring

theorem planned_of_generate {run : GenerateRun} (hnew : 1 ≤ run.maxNew)
    (hprompt : run.promptTokens ≠ 0) (hcache : 1 ≤ run.cacheMib) :
    ∃ parts, Plan.plannedTextBreakdown run.promptTokens run.maxNew run.cacheMib run.trunkCacheMib =
        .ok parts ∧
      run.heldBuffers.sum + (activationBuffers run.promptTokens).sum +
          (streamingWorkspace run.workers run.promptTokens).sum + run.cacheMib * Plan.MIB +
          run.trunkCacheMib * Plan.MIB + Plan.PEAK_LAYER_BF16_BYTES + Plan.RUNTIME_MISC_SAFETY =
        parts.total + (run.workers - 1) * workerBytes run.promptTokens + run.arenaBytes +
          mainBuffers.sum := by
  unfold Plan.plannedTextBreakdown
  rw [if_neg (by omega)]
  refine ⟨_, rfl, ?_⟩
  rw [heldBuffers_sum, streamingWorkspace_sum _ (workers_pos hprompt)]
  simp only [Plan.TextBreakdown.total, activationBuffers, H, sizeofFloat, Plan.LAYERS,
    Plan.KV_LATENT_PLUS_ROPE, Plan.KV_LATENT, Plan.QK_ROPE, Plan.FP32_BYTES, Plan.HIDDEN,
    Plan.LAYER_MAJOR_PROMPT_BUFFERS, List.sum_cons, List.sum_nil, Int.toNat_natCast]
  ring

/-! ### The whole run -/

section Run

variable (run : GenerateRun)

def GenerateRun.prefill : TrunkUse × List HeapEvent :=
  prefillPrompt run.workers run.promptTokens (openTrunkUse run.trunkCacheMib)

def GenerateRun.decode : TrunkUse × List HeapEvent := forwardTokens run.prefill.1 run.forwarded

/-- What is live when the workers of the last layer run. -/
def GenerateRun.lastAttentionLive : Nat :=
  run.heldBuffers.sum + (activationBuffers run.promptTokens).sum +
    cachedBefore run.trunkCacheMib (LN - 1) + readSum attentionKinds +
    (streamingWorkspace run.workers run.promptTokens).sum

variable {run}

theorem generate_eq {events : List HeapEvent} (h : generate run = some events) :
    (1 ≤ run.maxNew ∧ run.promptTokens ≠ 0 ∧ 1 ≤ run.cacheMib) ∧
      events = allocs run.heldBuffers ++ (run.prefill.2 ++ run.decode.2) ++ frees run.heldBuffers ++
        frees [run.decode.1.cacheBytes] := by
  unfold generate at h
  split at h
  · cases h
  · rename_i hrun
    dsimp only at h
    rw [loadTensors_global (openTrunkUse run.trunkCacheMib) globalKinds
      fun _ _ => List.not_mem_nil] at h
    cases h
    refine ⟨⟨by omega, by omega, ?_⟩, rfl⟩
    by_contra hcache
    apply hrun
    have hzero : run.cacheMib = 0 := by omega
    unfold GenerateRun.slots GenerateRun.cacheBytes
    rw [hzero, Nat.zero_mul, Nat.zero_min, Nat.zero_div]
    exact .inr (.inr (by decide))

theorem openTrunkUse_inBudget (trunkCacheMib : Nat) :
    (openTrunkUse trunkCacheMib).cacheBytes ≤ (openTrunkUse trunkCacheMib).budget := Nat.zero_le _

theorem prefill_use : run.prefill.1 =
    (layerPasses (prefillAttention run.workers run.promptTokens)
      (openTrunkUse run.trunkCacheMib) LN).1 := by
  -- stated for any pair, so that no layer is unfolded to compare the two sides
  have hfst : ∀ (u : TrunkUse) (events : List HeapEvent), (u, events).1 = u := fun _ _ => rfl
  exact (congrArg Prod.fst (prefillPrompt_eq _ _ _)).trans (hfst _ _)

theorem prefill_accounts : run.prefill.1.budget = run.trunkCacheMib * Plan.MIB ∧
    run.prefill.1.cacheBytes ≤ run.trunkCacheMib * Plan.MIB := by
  have h := layerPasses_accounts (prefillAttention run.workers run.promptTokens)
    (openTrunkUse_inBudget run.trunkCacheMib) LN
  have hbudget : (openTrunkUse run.trunkCacheMib).budget = run.trunkCacheMib * Plan.MIB := rfl
  rw [← prefill_use, hbudget] at h
  exact ⟨h.1, h.2.2⟩

/-- The attention of the last layer is the point that can go over a bound. -/
theorem prefill_decode_stretch {bound : Nat} (hlast : run.lastAttentionLive ≤ bound)
    (hmlp : run.heldBuffers.sum + (activationBuffers run.promptTokens).sum +
      run.trunkCacheMib * Plan.MIB + readSum denseKinds ≤ bound) :
    Stretch (run.prefill.2 ++ run.decode.2) run.heldBuffers.sum
      (run.heldBuffers.sum + run.decode.1.cacheBytes) bound := by
  have hopen := openTrunkUse_inBudget run.trunkCacheMib
  have hattn : ∀ layer < LN, run.heldBuffers.sum + (activationBuffers run.promptTokens).sum +
      (layerPasses (prefillAttention run.workers run.promptTokens)
        (openTrunkUse run.trunkCacheMib) layer).1.cacheBytes + readSum attentionKinds +
      (streamingWorkspace run.workers run.promptTokens).sum ≤ bound := by
    intro layer hlayer
    have hle := layerPasses_mono (prefillAttention run.workers run.promptTokens) hopen
      (Nat.le_sub_one_of_lt hlayer)
    rw [(layerPasses_fresh _ _ (LN - 1)).1] at hle
    unfold GenerateRun.lastAttentionLive at hlast
    omega
  have hempty : (openTrunkUse run.trunkCacheMib).cacheBytes = 0 := rfl
  have hprefill : Stretch run.prefill.2 (run.heldBuffers.sum + 0)
      (run.heldBuffers.sum + run.prefill.1.cacheBytes) bound := by
    rw [← hempty]
    exact prefillPrompt_stretch hopen hattn hmlp
  obtain ⟨hbudget, hin⟩ := @prefill_accounts run
  have hdecode : Stretch run.decode.2 (run.heldBuffers.sum + run.prefill.1.cacheBytes)
      (run.heldBuffers.sum + run.decode.1.cacheBytes) bound := by
    apply forwardTokens_stretch
    · rw [hbudget]
      exact hin
    · rw [hbudget]
      omega
  rw [Nat.add_zero] at hprefill
  exact hprefill.append hdecode

theorem largestLive_le {events : List HeapEvent} {bound : Nat} (h : generate run = some events)
    (hlast : run.lastAttentionLive ≤ bound)
    (hmlp : run.heldBuffers.sum + (activationBuffers run.promptTokens).sum +
      run.trunkCacheMib * Plan.MIB + readSum denseKinds ≤ bound) :
    largestLive events ≤ bound := by
  have htokens := prefill_decode_stretch hlast hmlp
  have hheld : Stretch (allocs run.heldBuffers ++ (run.prefill.2 ++ run.decode.2) ++
      frees run.heldBuffers) 0 run.decode.1.cacheBytes bound := by
    apply Stretch.within
    rw [Nat.zero_add, Nat.add_comm run.decode.1.cacheBytes]
    exact htokens
  have hclose : Stretch (frees [run.decode.1.cacheBytes]) run.decode.1.cacheBytes 0 bound := by
    have hle : run.decode.1.cacheBytes ≤ bound := by
      rw [← hheld.after]
      exact (liveAfter_le_peak _ _).trans hheld.peak_le
    have hfrees := @Stretch.frees 0 bound [run.decode.1.cacheBytes]
    rw [List.sum_singleton, Nat.zero_add] at hfrees
    exact hfrees hle
  rw [(generate_eq h).2]
  exact (hheld.append hclose).peak_le

theorem layerPasses_after (attention : List HeapEvent) {need : Nat}
    (hattention : Neutral attention need) {u : TrunkUse} (hu : u.cacheBytes ≤ u.budget)
    (base n : Nat) :
    liveAfter (base + u.cacheBytes) (layerPasses attention u n).2 =
      base + (layerPasses attention u n).1.cacheBytes := by
  have hroom : Stretch (layerPasses attention u n).2 (base + u.cacheBytes)
      (base + (layerPasses attention u n).1.cacheBytes)
      (base + u.budget + readSum denseKinds + readSum attentionKinds + need) := by
    apply layerPasses_stretch hattention hu
    · intro layer _
      have hlayer := layerPasses_accounts attention hu layer
      omega
    · omega
  exact hroom.after

/-- A pass reaches what its attention needs on top of its tensors. -/
theorem layerPass_reaches {attention : List HeapEvent} {need : Nat}
    (hreach : ∀ live, live + need ≤ peak live attention) {u : TrunkUse} {layer : Nat}
    (hfresh : ∀ kind, (some layer, kind) ∉ u.cached) (live : Nat) :
    live + readSum attentionKinds + need ≤ peak live (layerPass attention u layer).2 := by
  obtain ⟨hallocated, -⟩ := loadTensors_fresh attentionKinds_nodup fun kind _ => hfresh kind
  have hattn : peak live (withTensors u (some layer) attentionKinds attention).2 ≤
      peak live (layerPass attention u layer).2 := by
    rw [layerPass]
    exact peak_left _ _ _
  refine le_trans ?_ hattn
  rw [withTensors]
  dsimp only
  rw [hallocated]
  have hloaded := peak_right live (allocs (attentionKinds.map TensorKind.readBytes)) attention
  rw [liveAfter_allocs] at hloaded
  exact (hreach _).trans (hloaded.trans (peak_left _ _ _))

theorem layerPasses_reaches {attention : List HeapEvent} {need : Nat}
    (hneutral : Neutral attention need) (hreach : ∀ live, live + need ≤ peak live attention)
    (trunkCacheMib base n : Nat) :
    base + cachedBefore trunkCacheMib n + readSum attentionKinds + need ≤
      peak base (layerPasses attention (openTrunkUse trunkCacheMib) (n + 1)).2 := by
  have hbefore := layerPasses_after attention hneutral (openTrunkUse_inBudget trunkCacheMib) base n
  obtain ⟨hbytes, hcached⟩ := layerPasses_fresh attention trunkCacheMib n
  have hempty : (openTrunkUse trunkCacheMib).cacheBytes = 0 := rfl
  rw [hempty, Nat.add_zero, hbytes] at hbefore
  rw [layerPasses_succ]
  dsimp only
  generalize layerPasses attention (openTrunkUse trunkCacheMib) n = before at hbefore hcached ⊢
  have hfresh : ∀ kind, (some n, kind) ∉ before.1.cached := by
    intro kind hmem
    obtain ⟨layer, hlt, heq⟩ := hcached _ hmem
    cases heq
    exact Nat.lt_irrefl _ hlt
  have hpass := peak_right base before.2 (layerPass attention before.1 n).2
  rw [hbefore] at hpass
  exact (layerPass_reaches hreach hfresh _).trans hpass

theorem prefillAttention_reaches (workers S live : Nat) :
    live + (streamingWorkspace workers S).sum ≤ peak live (prefillAttention workers S) := by
  unfold prefillAttention
  rw [List.append_nil, ← peak_allocs]
  exact (peak_left _ _ _).trans (peak_left _ _ _)

theorem lastAttentionLive_le_prefill :
    run.lastAttentionLive ≤ peak run.heldBuffers.sum run.prefill.2 := by
  obtain ⟨n, hn⟩ : ∃ n, LN = n + 1 := ⟨26, rfl⟩
  have hpasses := layerPasses_reaches (prefillAttention_neutral run.workers run.promptTokens)
    (prefillAttention_reaches run.workers run.promptTokens) run.trunkCacheMib
    (run.heldBuffers.sum + (activationBuffers run.promptTokens).sum) n
  unfold GenerateRun.prefill GenerateRun.lastAttentionLive
  rw [prefillPrompt_eq, hn, Nat.add_sub_cancel]
  dsimp only
  refine hpasses.trans (le_trans ?_ (peak_left _ _ _))
  have hactivations := peak_right run.heldBuffers.sum (allocs (activationBuffers run.promptTokens))
    (layerPasses (prefillAttention run.workers run.promptTokens)
      (openTrunkUse run.trunkCacheMib) (n + 1)).2
  rw [liveAfter_allocs] at hactivations
  exact hactivations

theorem lastAttentionLive_le {events : List HeapEvent} (h : generate run = some events) :
    run.lastAttentionLive ≤ largestLive events := by
  rw [(generate_eq h).2]
  have hheld := peak_right 0 (allocs run.heldBuffers) (run.prefill.2 ++ run.decode.2)
  rw [liveAfter_allocs, Nat.zero_add] at hheld
  calc run.lastAttentionLive
      ≤ peak run.heldBuffers.sum run.prefill.2 := lastAttentionLive_le_prefill
    _ ≤ peak run.heldBuffers.sum (run.prefill.2 ++ run.decode.2) := peak_left _ _ _
    _ ≤ peak 0 (allocs run.heldBuffers ++ (run.prefill.2 ++ run.decode.2)) := hheld
    _ ≤ _ := (peak_left _ _ _).trans (peak_left _ _ _)

/-- The plan covers a run exactly if the workers fit. -/
theorem plan_covers_iff {events : List HeapEvent} (h : generate run = some events) :
    ∃ parts, Plan.plannedTextBreakdown run.promptTokens run.maxNew run.cacheMib run.trunkCacheMib =
        .ok parts ∧ (largestLive events ≤ parts.total ↔ run.WorkersFit) := by
  obtain ⟨⟨hnew, hprompt, hcache⟩, -⟩ := generate_eq h
  obtain ⟨parts, hparts, hbalance⟩ := planned_of_generate hnew hprompt hcache
  have harena := arenaBytes_le run
  have hdense : readSum denseKinds = Plan.PEAK_LAYER_BF16_BYTES := by decide +kernel
  have hmain : mainBuffers.sum ≤ Plan.RUNTIME_MISC_SAFETY := by decide +kernel
  have hworkspace := streamingWorkspace_sum run.promptTokens (workers_pos hprompt)
  have hiff : run.lastAttentionLive ≤ parts.total ↔ run.WorkersFit := by
    unfold GenerateRun.lastAttentionLive GenerateRun.WorkersFit
    omega
  refine ⟨parts, hparts, ?_⟩
  rw [← hiff]
  constructor
  · intro hle
    exact (lastAttentionLive_le h).trans hle
  · intro hlast
    exact largestLive_le h hlast (by omega)

end Run

/-- 131072 tokens with 512 workers and an expert cache of 512 MiB. -/
def manyWorkers : GenerateRun where
  promptTokens := 131072
  maxNew := 32
  cacheMib := 512
  trunkCacheMib := 0
  slotBytes := 17301504
  maxThreads := 512
  forwarded := 0

theorem plan_covers_iff_manyWorkers :
    ∃ parts, Plan.plannedTextBreakdown manyWorkers.promptTokens manyWorkers.maxNew
        manyWorkers.cacheMib manyWorkers.trunkCacheMib = .ok parts ∧
      (largestLive ((generate manyWorkers).get (by decide +kernel)) ≤ parts.total ↔
        manyWorkers.WorkersFit) :=
  @plan_covers_iff manyWorkers _ (Option.some_get _).symm

theorem plan_not_covers : ¬ ∀ (run : GenerateRun) (events : List HeapEvent)
    (parts : Plan.TextBreakdown), generate run = some events →
    1 ≤ run.maxThreads → run.maxThreads ≤ run.promptTokens →
    Plan.plannedTextBreakdown run.promptTokens run.maxNew run.cacheMib run.trunkCacheMib =
      .ok parts → largestLive events ≤ parts.total := by
  intro hall
  have hplanned : (Plan.plannedTextBreakdown manyWorkers.promptTokens manyWorkers.maxNew
      manyWorkers.cacheMib manyWorkers.trunkCacheMib).toOption.map (fun p => p.total) =
      some 13965370624 := by
    decide +kernel
  have hover : 13965370624 < manyWorkers.lastAttentionLive := by decide +kernel
  have hruns : (generate manyWorkers).isSome := by decide +kernel
  obtain ⟨events, hevents⟩ := Option.isSome_iff_exists.mp hruns
  have hlive := lastAttentionLive_le hevents
  cases hparts : Plan.plannedTextBreakdown manyWorkers.promptTokens manyWorkers.maxNew
      manyWorkers.cacheMib manyWorkers.trunkCacheMib with
  | error e =>
    rw [hparts] at hplanned
    cases hplanned
  | ok parts =>
    rw [hparts] at hplanned
    have htotal : parts.total = 13965370624 := Option.some.inj hplanned
    have hfits := hall manyWorkers events parts hevents (by decide) (by decide) hparts
    omega

end Kvl.Footprint

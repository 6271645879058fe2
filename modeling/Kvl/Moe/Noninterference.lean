import Kvl.Moe.GgufQ8

/-!
# The block does not depend on the cache

`plainMoe` is the block without a cache: every routed expert is read straight
from the data file. A call that returns 0 on a cache with any history computes
just that, so two calls on the same file agree whatever their caches went
through.

A load or a matrix that leaves its slot is undefined in the source. Such an
execution has no result, here as there.
-/

namespace Kvl

set_option autoImplicit false

section Plain
variable {F D : Type*} (fl : MoeFloats F D) (s : ExpertStore) (file : Nat → UInt8)

end Plain

section Outcome

/-- Everything in which two calls may differ: the cache with its whole history,
the globals, the policy and what the call meets. -/
structure MoeRun (s : ExpertStore) (F : Type*) where
  arena : Nat → SlotMemory
  budget : UInt64
  allocOk : Bool
  history : List (CacheOp s SlotMemory)
  ptr : Nat
  globals : LayerpinState
  useLayerPins : Bool
  env : MoeEnv s F

inductive MoeOutcome (F : Type*) where
  | undefined
  | failed
  | returned (out : List F) (topIds : List Nat) (topWeights : List F)

def readsInside (s : ExpertStore) (slotBytes : Nat) (reads : List Read) : Bool :=
  reads.all fun rd => loadInside s slotBytes rd.record

def viewsInside (s : ExpertStore) (slotBytes : Nat) (gets : List (CallResult SlotMemory)) : Bool :=
  gets.all fun got => readsInside s slotBytes got.reads &&
    got.out.all fun q => viewInside s slotBytes q.record

variable {F D : Type*} (fl : MoeFloats F D) {s : ExpertStore} (file : Nat → UInt8)

/-- The loads and the matrices of one call stay in their slots. -/
def MoeResult.inside (s : ExpertStore) (slotBytes : Nat) (res : MoeResult F) : Bool :=
  (res.getmany.all fun batch => readsInside s slotBytes batch.reads) &&
    viewsInside s slotBytes res.gets

def MoeRun.cache (p : MoeRun s F) (c₀ : ExpertCache SlotMemory) : ExpertCache SlotMemory :=
  run s (kvlExpertLoad s file) c₀ p.history

def MoeRun.result (p : MoeRun s F) (c₀ : ExpertCache SlotMemory) (a : MoeArgs F) : MoeResult F :=
  moeTokenGgufQ8Impl fl s file p.ptr (p.cache file c₀) p.globals a p.env p.useLayerPins

def MoeRun.outcome (p : MoeRun s F) (a : MoeArgs F) : MoeOutcome F :=
  match kvlExpertCacheInit s p.arena p.budget p.allocOk with
  | .ok c₀ =>
    let res := p.result fl file c₀ a
    if !readsInside s c₀.slotBytes (runReads s (kvlExpertLoad s file) c₀ p.history) then .undefined
    else if !res.inside s c₀.slotBytes then .undefined
    else if res.rc = 0 then .returned res.out res.topIds res.topWeights
    else .failed
  | _ => .failed

end Outcome

section Kernels
variable {F D : Type*} {fl : MoeFloats F D}

end Kernels

section Run
variable {F D : Type*} {fl : MoeFloats F D} {s : ExpertStore} {file : Nat → UInt8}

/-- A cache all of whose records were loaded inside their slots. -/
structure CacheInside (s : ExpertStore) (file : Nat → UInt8) (slotBytes : Nat)
    (c : ExpertCache SlotMemory) : Prop where
  inv : RepInv s (kvlExpertLoad s file) c
  bytes : c.slotBytes = slotBytes
  loads : ∀ i r, c.recordOfSlot i = some r → loadInside s slotBytes r = true

variable {slotBytes : Nat} {c : ExpertCache SlotMemory}

theorem CacheInside.after {res : CallResult SlotMemory} (h : CacheInside s file slotBytes c)
    (hspec : CallSpec s (kvlExpertLoad s file) c res)
    (hreads : readsInside s slotBytes res.reads = true) :
    CacheInside s file slotBytes res.cache where
  inv := hspec.inv
  bytes := hspec.slotBytes.trans h.bytes
  loads i r hr := by
    rcases hspec.published i r hr with hr | hr
    · exact h.loads i r hr
    · obtain ⟨rd, hrd, rfl⟩ := List.mem_map.mp hr
      exact List.all_eq_true.mp hreads rd hrd

theorem CacheInside.pinLayer (h : CacheInside s file slotBytes c) (layer : Int)
    (experts : Option (List Int)) (n : Int) (allocOk : Bool) :
    CacheInside s file slotBytes (kvlExpertCachePinLayer s c layer experts n allocOk).cache := by
  refine h.after (pinLayer_spec h.inv layer experts n allocOk) ?_
  unfold kvlExpertCachePinLayer
  split
  · rfl
  dsimp only
  split
  · rfl
  split <;> rfl

theorem CacheInside.pinRoutes (h : CacheInside s file slotBytes c) (layer topK : Int)
    (routes : List (Nat × F)) (useHysteresis allocOk : Bool) :
    CacheInside s file slotBytes
      (Kvl.pinRoutes fl s c layer topK routes useHysteresis allocOk).2.1 := by
  unfold Kvl.pinRoutes
  dsimp only
  split
  · exact h.pinLayer _ _ _ _
  split
  · exact h
  split
  · exact h
  · exact h.pinLayer _ _ _ _

theorem CacheInside.enterPhase (h : CacheInside s file slotBytes c) (ptr : Nat)
    (g : LayerpinState) (a : MoeArgs F) (env : MoeEnv s F) (useLayerPins : Bool) :
    CacheInside s file slotBytes (Kvl.enterPhase s ptr c g a env useLayerPins).2.1 := by
  have hpin := h.pinLayer 0 none 0 env.sentinelAlloc
  unfold Kvl.enterPhase
  cases useLayerPins with
  | false => exact h
  | true =>
    have hcase := phase_cases s g ptr c a.layer env.sentinelAlloc
    simp only [if_true]
    generalize layerpinPhaseUpdate s g ptr c a.layer env.sentinelAlloc = res at hcase ⊢
    cases hcase with
    | idle hno => exact h
    | begun hyes hr hrc =>
      rw [hr] at hpin
      exact hpin
    | refused hyes hr hrc =>
      rw [hr] at hpin
      exact hpin

theorem CacheInside.updatePins (h : CacheInside s file slotBytes c) (a : MoeArgs F)
    (env : MoeEnv s F) (routes : List (Nat × F)) (useLayerPins : Bool) :
    CacheInside s file slotBytes (Kvl.updatePins fl s c a env routes useLayerPins).2 := by
  unfold Kvl.updatePins
  split
  · exact h.pinRoutes _ _ _ _ _
  · exact h

end Run

section Example

end Example

end Kvl

import Kvl.Moe.Kernels

/-!
# The GGUF mixture-of-experts block

`moe_token_gguf_q8_impl` with its layer-pin policy. The two routed routes with
the largest weights are pinned once decoding has begun, and with hysteresis an
old pin that is routed again goes first. The hysteresis counters are only
printed and are left out; everything a call meets outside its arguments is in
`MoeEnv`.
-/

namespace Kvl

set_option autoImplicit false

open TopK

/-- `g_layerpin_cache`, as the identity of a cache, and `g_layerpin_last_layer`. -/
structure LayerpinState where
  cache : Option Nat
  lastLayer : Int
  deriving DecidableEq, Repr

def freshLayerpin : LayerpinState := ⟨none, -1⟩

def layerPinCount : Nat := 2

/-- `v` is the value of `KVL_LAYERPIN_HYSTERESIS`. -/
def layerpinHysteresisEnabled (v : Option Bytes) : Bool :=
  match v with
  | none => false
  | some v => v ≠ [] ∧ v ≠ [48]

def q80MatrixBytes (inn out : Int) : Nat :=
  if inn ≤ 0 ∨ out ≤ 0 ∨ inn % q80Block ≠ 0 then 0
  else out.toNat * (inn.toNat / q80Block) * q80Bytes

section Pins
variable {B F D : Type*} (fl : MoeFloats F D) (s : ExpertStore)

/-- A new cache starts the globals anew. -/
def LayerpinState.follow (g : LayerpinState) (ptr : Nat) : LayerpinState :=
  if g.cache ≠ some ptr then ⟨some ptr, -1⟩ else g

/-- The transition from the last layer to layer 1, while nothing can be pinned yet. -/
def decodeBegins (g : LayerpinState) (c : ExpertCache B) (layer : Int) : Bool :=
  c.pinnedOf.isNone && g.lastLayer == 26 && layer == 1

/-- `ptr` identifies the cache of the call; the flag is the return code 0. -/
def layerpinPhaseUpdate (g : LayerpinState) (ptr : Nat) (c : ExpertCache B) (layer : Int)
    (allocOk : Bool) : Bool × ExpertCache B × LayerpinState :=
  let g := g.follow ptr
  if decodeBegins g c layer then
    let r := kvlExpertCachePinLayer s c 0 none 0 allocOk
    if r.rc ≠ 0 then (false, r.cache, g)
    else (true, r.cache, { g with lastLayer := layer })
  else (true, c, { g with lastLayer := layer })

/-- The branches of the phase detector. -/
inductive PhaseCase (g : LayerpinState) (ptr : Nat) (c : ExpertCache B) (layer : Int)
    (allocOk : Bool) : Bool × ExpertCache B × LayerpinState → Prop where
  | idle (hno : decodeBegins (g.follow ptr) c layer = false) :
    PhaseCase g ptr c layer allocOk (true, c, { g.follow ptr with lastLayer := layer })
  | begun {r : CallResult B} (hyes : decodeBegins (g.follow ptr) c layer = true)
      (hr : kvlExpertCachePinLayer s c 0 none 0 allocOk = r) (hrc : r.rc = 0) :
    PhaseCase g ptr c layer allocOk (true, r.cache, { g.follow ptr with lastLayer := layer })
  | refused {r : CallResult B} (hyes : decodeBegins (g.follow ptr) c layer = true)
      (hr : kvlExpertCachePinLayer s c 0 none 0 allocOk = r) (hrc : r.rc ≠ 0) :
    PhaseCase g ptr c layer allocOk (false, r.cache, g.follow ptr)

theorem phase_cases (g : LayerpinState) (ptr : Nat) (c : ExpertCache B) (layer : Int)
    (allocOk : Bool) :
    PhaseCase s g ptr c layer allocOk (layerpinPhaseUpdate s g ptr c layer allocOk) := by
  unfold layerpinPhaseUpdate
  dsimp only
  by_cases hb : decodeBegins (g.follow ptr) c layer = true
  · rw [if_pos hb]
    generalize hr : kvlExpertCachePinLayer s c 0 none 0 allocOk = r
    by_cases hrc : r.rc = 0
    · rw [if_neg (not_not.mpr hrc)]
      exact .begun hb hr hrc
    · rw [if_pos hrc]
      exact .refused hb hr hrc
  · rw [if_neg hb]
    exact .idle (Bool.not_eq_true _ ▸ hb)

def layerpinIsPinned (c : ExpertCache B) (layer expert : Int) : Bool :=
  match c.pinnedOf with
  | none => false
  | some pinned => decide (idsInRange s layer expert) && pinned (flatKey s layer expert)

/-- A route is an expert with its weight. -/
def heavier (a b : Nat × F) : Bool := fl.gt a.2 b.2

/-- The old pins among the current routes, the heaviest first. -/
def keepPinned (c : ExpertCache B) (layer : Int) (nPin : Nat) (routes : List (Nat × F)) :
    List (Option (Nat × F)) :=
  insertAll (heavier fl) (List.replicate nPin none)
    (routes.filter fun r => layerpinIsPinned s c layer r.1)

/-- The kept places as pins, each expert once. -/
def retainPins : List (Option (Nat × F)) → List Nat → List Nat
  | [], pins => pins
  | none :: places, pins => retainPins places pins
  | some r :: places, pins =>
    if r.1 ∈ pins then retainPins places pins else retainPins places (pins ++ [r.1])

/-- The first of the heaviest routes. -/
def heaviest (routes : List (Nat × F)) : Option (Nat × F) :=
  routes.foldl (fun best r => if yields (heavier fl) r best then some r else best) none

/-- The loop that fills the remaining places. -/
def fillPins (routes : List (Nat × F)) : Nat → List Nat → Option (List Nat)
  | 0, pins => some pins
  | n + 1, pins =>
    match heaviest fl (routes.filter fun r => r.1 ∉ pins) with
    | none => none
    | some r => fillPins routes n (pins ++ [r.1])

/-- The old pins that stay, all of them under hysteresis. -/
def retainedPins (c : ExpertCache B) (layer : Int) (nPin : Nat) (routes : List (Nat × F))
    (useHysteresis : Bool) : List Nat :=
  if useHysteresis && c.pinnedOf.isSome then
    retainPins (keepPinned fl s c layer nPin routes) [] else []

/-- The pins of one layer for the current routes. -/
def choosePins (c : ExpertCache B) (layer : Int) (nPin : Nat) (routes : List (Nat × F))
    (useHysteresis : Bool) : Option (List Nat) :=
  let kept := retainedPins fl s c layer nPin routes useHysteresis
  fillPins fl routes (nPin - kept.length) kept

/-- The number of pins of a layer. -/
def nPin (topK : Int) : Int := if topK < layerPinCount then topK else layerPinCount

/-- The last component is `*retained_out`. -/
def pinRoutes (c : ExpertCache B) (layer topK : Int) (routes : List (Nat × F))
    (useHysteresis allocOk : Bool) : Bool × ExpertCache B × Nat :=
  let n := nPin topK
  if n ≤ 0 then
    let r := kvlExpertCachePinLayer s c layer none 0 allocOk
    (r.rc = 0, r.cache, 0)
  else
    let routedLayers := cInt s.nLayers - 1
    if routedLayers ≤ 0 ∨ c.nSlots < routedLayers * layerPinCount + topK then (false, c, 0)
    else
      match choosePins fl s c layer n.toNat routes useHysteresis with
      | none => (false, c, 0)
      | some pins =>
        let r := kvlExpertCachePinLayer s c layer (some (pins.map Int.ofNat)) n allocOk
        (r.rc = 0, r.cache, (retainedPins fl s c layer n.toNat routes useHysteresis).length)

end Pins

/-- The arguments of one call. -/
structure MoeArgs (F : Type*) where
  layer : Int
  cfg : RouterConfig F
  x : Nat → F
  routerWeight : Nat → F
  correctionBias : Nat → F
  expertIntermediateSize : Int
  shared : Option MlpBF16

/-- What a call meets: the environment variable, its allocations, its reads
and what the scratch buffer held before. -/
structure MoeEnv (s : ExpertStore) (F : Type*) where
  hysteresis : Option Bytes
  sentinelAlloc : Bool
  routerAlloc : Bool
  pinAlloc : Bool
  batch : BatchEnv s SlotMemory
  /-- The result of the read of the `j`-th `get`, should it need one. -/
  read : Nat → ReadResult SlotMemory
  scratch : Nat → F

/-- `getmany` and `gets` are the cache calls made once the routes are known. -/
structure MoeResult (F : Type*) where
  rc : Int
  out : List F
  topIds : List Nat
  topWeights : List F
  getmany : Option (CallResult SlotMemory)
  gets : List (CallResult SlotMemory)
  cache : ExpertCache SlotMemory
  pins : LayerpinState

/-- The variables of the loop over the routes. -/
structure MoeLoop (F : Type*) where
  cache : ExpertCache SlotMemory
  scratch : Nat → F
  out : Nat → F
  gets : List (CallResult SlotMemory)

section Moe
variable {F D : Type*} (fl : MoeFloats F D) (s : ExpertStore) (file : Nat → UInt8)

def MoeResult.refused (c : ExpertCache SlotMemory) (g : LayerpinState) : MoeResult F :=
  ⟨-1, [], [], [], none, [], c, g⟩

def MoeArgs.hidden (a : MoeArgs F) : Int := a.cfg.hiddenSize

/-- The larger of the two intermediate sizes. -/
def MoeArgs.maxI (a : MoeArgs F) : Int :=
  match a.shared with
  | some m => if m.intermediateSize > a.expertIntermediateSize then m.intermediateSize
    else a.expertIntermediateSize
  | none => a.expertIntermediateSize

def MoeArgs.needGu (a : MoeArgs F) : Nat := q80MatrixBytes a.hidden a.expertIntermediateSize

def MoeArgs.needDn (a : MoeArgs F) : Nat := q80MatrixBytes a.expertIntermediateSize a.hidden

/-- The four parts of the scratch buffer start at multiples of `maxI`. -/
def MoeArgs.part (a : MoeArgs F) (n : Nat) : Nat := n * a.maxI.toNat

/-- The record holds three matrices of the expected sizes. -/
def recordSizesOk (a : MoeArgs F) (r : ExpertRecord) : Bool :=
  r.gateBytes.toNat == a.needGu && r.upBytes.toNat == a.needGu && r.downBytes.toNat == a.needDn

/-- The four kernel calls for one expert, whose slot holds the bytes `m`. -/
def runExpert (a : MoeArgs F) (r : ExpertRecord) (m : SlotMemory) (scratch : Nat → F) : Nat → F :=
  let I := a.expertIntermediateSize
  let scratch := kvlMatvecGgmlQ80 fl (a.part 0) a.x (readFrom r.gateOff.toNat m) a.hidden I scratch
  let scratch := kvlMatvecGgmlQ80 fl (a.part 1) a.x (readFrom r.upOff.toNat m) a.hidden I scratch
  let scratch := kvlSiluMul fl (a.part 2) (readFrom (a.part 0) scratch) (readFrom (a.part 1) scratch)
    I scratch
  kvlMatvecGgmlQ80 fl (a.part 3) (readFrom (a.part 2) scratch) (readFrom r.downOff.toNat m) I
    a.hidden scratch

/-- The loop over the routes; the flag is whether it ran to its end. -/
def moeExperts (a : MoeArgs F) (env : MoeEnv s F) :
    Nat → List (Nat × F) → MoeLoop F → Bool × MoeLoop F
  | _, [], st => (true, st)
  | j, (e, w) :: rest, st =>
    let got := kvlExpertCacheGet s (kvlExpertLoad s file) st.cache a.layer e (env.read j)
    let st := { st with cache := got.cache, gets := st.gets ++ [got] }
    if got.rc ≠ 0 then (false, st)
    else
      match got.out with
      -- a `get` that returns 0 has published a record
      | none => (false, st)
      | some q =>
        if !recordSizesOk a (s.record q.record) then (false, st)
        else
          let scratch := runExpert fl a (s.record q.record) (got.cache.arena q.base) st.scratch
          let tmp := readFrom (a.part 3) scratch
          moeExperts a env (j + 1) rest
            { st with scratch := scratch, out := fun i => fl.add (st.out i) (fl.mul w (tmp i)) }

/-- The shared expert, added to the routed sum. -/
def addShared (a : MoeArgs F) (scratch out : Nat → F) : Option (Nat → F) :=
  match a.shared with
  | none => some out
  | some m => (kvlMlpBf16 fl (a.part 3) a.x m a.hidden scratch).map fun scratch i =>
      fl.add (out i) (readFrom (a.part 3) scratch i)

/-- Everything from the batched call on. -/
def moeRouted (c : ExpertCache SlotMemory) (g : LayerpinState) (a : MoeArgs F) (env : MoeEnv s F)
    (ids : List Nat) (ws : List F) : MoeResult F :=
  let batch := kvlExpertCacheGetmany s (kvlExpertLoad s file) c a.layer
    (some (ids.map Int.ofNat)) a.cfg.topK env.batch
  if a.needGu = 0 ∨ a.needDn = 0 then ⟨-1, [], ids, ws, some batch, [], batch.cache, g⟩
  else
    let run := moeExperts fl s file a env 0 (ids.zip ws)
      ⟨batch.cache, env.scratch, fun _ => fl.zero, []⟩
    if !run.1 then ⟨-1, [], ids, ws, some batch, run.2.gets, run.2.cache, g⟩
    else
      match addShared fl a run.2.scratch run.2.out with
      | none => ⟨-1, [], ids, ws, some batch, run.2.gets, run.2.cache, g⟩
      | some out =>
        ⟨0, (List.range a.hidden.toNat).map out, ids, ws, some batch, run.2.gets, run.2.cache, g⟩

/-- The routes of a call. -/
def moeRoutes (a : MoeArgs F) (env : MoeEnv s F) : Option (List Nat × List F) :=
  kvlRouterNoauxTc fl.toRouterFloats a.cfg a.x a.routerWeight a.correctionBias env.routerAlloc

/-- The pins of the routed layer, once pins are enabled. -/
def updatePins (c : ExpertCache SlotMemory) (a : MoeArgs F) (env : MoeEnv s F)
    (routes : List (Nat × F)) (useLayerPins : Bool) : Bool × ExpertCache SlotMemory :=
  if useLayerPins && c.pinnedOf.isSome then
    let r := pinRoutes fl s c a.layer a.cfg.topK routes
      (useLayerPins && layerpinHysteresisEnabled env.hysteresis) env.pinAlloc
    (r.1, r.2.1)
  else (true, c)

def enterPhase (ptr : Nat) (c : ExpertCache SlotMemory) (g : LayerpinState) (a : MoeArgs F)
    (env : MoeEnv s F) (useLayerPins : Bool) :
    Bool × ExpertCache SlotMemory × LayerpinState :=
  if useLayerPins then layerpinPhaseUpdate s g ptr c a.layer env.sentinelAlloc else (true, c, g)

/-- `ptr` is the identity of the cache. -/
def moeTokenGgufQ8Impl (ptr : Nat) (c : ExpertCache SlotMemory) (g : LayerpinState)
    (a : MoeArgs F) (env : MoeEnv s F) (useLayerPins : Bool) : MoeResult F :=
  if s.hdr.dtype ≠ dtypeGgufQ8 ∨ a.expertIntermediateSize ≤ 0 then .refused c g
  else
    let (ok, c, g) := enterPhase s ptr c g a env useLayerPins
    if !ok then .refused c g
    else
      match moeRoutes fl s a env with
      | none => .refused c g
      | some (ids, ws) =>
        let (ok, c) := updatePins fl s c a env (ids.zip ws) useLayerPins
        if !ok then .refused c g
        else moeRouted fl s file c g a env ids ws

/-- How far a call gets. -/
inductive MoeCase (ptr : Nat) (c : ExpertCache SlotMemory) (g : LayerpinState) (a : MoeArgs F)
    (env : MoeEnv s F) (useLayerPins : Bool) : MoeResult F → Prop where
  | badArgs (hargs : s.hdr.dtype ≠ dtypeGgufQ8 ∨ a.expertIntermediateSize ≤ 0) :
    MoeCase ptr c g a env useLayerPins (.refused c g)
  | badPhase {c₁ : ExpertCache SlotMemory} {g₁ : LayerpinState}
      (hphase : enterPhase s ptr c g a env useLayerPins = (false, c₁, g₁)) :
    MoeCase ptr c g a env useLayerPins (.refused c₁ g₁)
  | noRoutes {c₁ : ExpertCache SlotMemory} {g₁ : LayerpinState}
      (hphase : enterPhase s ptr c g a env useLayerPins = (true, c₁, g₁))
      (hroutes : moeRoutes fl s a env = none) :
    MoeCase ptr c g a env useLayerPins (.refused c₁ g₁)
  | badPins {c₁ c₂ : ExpertCache SlotMemory} {g₁ : LayerpinState} {ids : List Nat} {ws : List F}
      (hphase : enterPhase s ptr c g a env useLayerPins = (true, c₁, g₁))
      (hroutes : moeRoutes fl s a env = some (ids, ws))
      (hpins : updatePins fl s c₁ a env (ids.zip ws) useLayerPins = (false, c₂)) :
    MoeCase ptr c g a env useLayerPins (.refused c₂ g₁)
  | routed {c₁ c₂ : ExpertCache SlotMemory} {g₁ : LayerpinState} {ids : List Nat} {ws : List F}
      (hargs : s.hdr.dtype = dtypeGgufQ8)
      (hphase : enterPhase s ptr c g a env useLayerPins = (true, c₁, g₁))
      (hroutes : moeRoutes fl s a env = some (ids, ws))
      (hpins : updatePins fl s c₁ a env (ids.zip ws) useLayerPins = (true, c₂)) :
    MoeCase ptr c g a env useLayerPins (moeRouted fl s file c₂ g₁ a env ids ws)

theorem moe_cases (ptr : Nat) (c : ExpertCache SlotMemory) (g : LayerpinState) (a : MoeArgs F)
    (env : MoeEnv s F) (useLayerPins : Bool) :
    MoeCase fl s file ptr c g a env useLayerPins
      (moeTokenGgufQ8Impl fl s file ptr c g a env useLayerPins) := by
  unfold moeTokenGgufQ8Impl
  split
  · exact .badArgs ‹_›
  rename_i hargs
  obtain ⟨hdtype, _⟩ := not_or.mp hargs
  rcases hphase : enterPhase s ptr c g a env useLayerPins with ⟨ok, c₁, g₁⟩
  cases ok with
  | false => exact .badPhase hphase
  | true =>
    cases hroutes : moeRoutes fl s a env with
    | none => exact .noRoutes hphase hroutes
    | some routes =>
      obtain ⟨ids, ws⟩ := routes
      rcases hpins : updatePins fl s c₁ a env (ids.zip ws) useLayerPins with ⟨ok, c₂⟩
      cases ok with
      | false =>
        dsimp only
        rw [hpins]
        exact .badPins hphase hroutes hpins
      | true =>
        dsimp only
        rw [hpins]
        exact .routed (not_not.mp hdtype) hphase hroutes hpins

end Moe

def intMoeFloats : MoeFloats Int Int where
  toRouterFloats := intFloats
  f16BitsToF32 h := h.toNat
  bf16ToF32 h := h.toNat
  ofInt8 b := b.toNat

/-- An execution in which every allocation and every read succeeds. -/
def smoothEnv (s : ExpertStore) (hysteresis : Option Bytes) : MoeEnv s Int where
  hysteresis := hysteresis
  sentinelAlloc := true
  routerAlloc := true
  pinAlloc := true
  batch := ⟨true, true, insertionQsort _, fun _ => .delivered⟩
  read _ := .delivered
  scratch _ := 0

/-- A data file whose bytes count up. -/
def countingFile (i : Nat) : UInt8 := UInt8.ofNat i

end Kvl

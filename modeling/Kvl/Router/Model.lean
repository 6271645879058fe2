import Kvl.Lib.TopK
import Kvl.Router.MaskLoad

/-!
# The routers

`kvl_router_noaux_tc` and its copy `q8_router_for_layer`, over the operations
of the two float types they use. Arrays are functions on indices, and a
`Q8Choice` with a negative id is a free place.
-/

namespace Kvl

set_option autoImplicit false

open TopK

structure RouterFloats (F D : Type*) where
  zero : F
  one : F
  negInf : F
  add : F → F → F
  mul : F → F → F
  div : F → F → F
  neg : F → F
  exp : F → F
  gt : F → F → Bool
  eq : F → F → Bool
  isFinite : F → Bool
  widen : F → D
  narrow : D → F
  addD : D → D → D
  mulD : D → D → D
  zeroD : D
  tinyD : D

structure RouterConfig (F : Type*) where
  hiddenSize : Int
  nExperts : Int
  topK : Int
  nGroup : Int
  topkGroup : Int
  normTopkProb : Bool
  routedScalingFactor : F

structure Choice (F : Type*) where
  score : F
  id : Nat

section Router
variable {F D : Type*} (fl : RouterFloats F D) (cfg : RouterConfig F)

def RouterConfig.Ok : Prop :=
  0 < cfg.hiddenSize ∧ 0 < cfg.nExperts ∧ 0 < cfg.topK ∧ cfg.topK ≤ cfg.nExperts ∧
    0 < cfg.nGroup ∧ cfg.nExperts % cfg.nGroup = 0 ∧ 0 < cfg.topkGroup ∧
    cfg.topkGroup ≤ cfg.nGroup

instance : Decidable cfg.Ok := by
  unfold RouterConfig.Ok
  infer_instance

def perGroup : Nat := (cfg.nExperts / cfg.nGroup).toNat

def q8Better (a b : Choice F) : Bool :=
  fl.gt a.score b.score || (fl.eq a.score b.score && a.id < b.id)

/-- The sigmoid of a dot product accumulated in double. -/
def expertScore (x w : Nat → F) (e : Nat) : F :=
  let z := (List.range cfg.hiddenSize.toNat).foldl (fun z i =>
    fl.addD z (fl.mulD (fl.widen (w (e * cfg.hiddenSize.toNat + i))) (fl.widen (x i)))) fl.zeroD
  fl.div fl.one (fl.add fl.one (fl.exp (fl.neg (fl.narrow z))))

def choiceScore (x w bias : Nat → F) (e : Nat) : F := fl.add (expertScore fl cfg x w e) (bias e)

/-- The running largest and second largest value. -/
def topTwo (vs : List F) : F × F :=
  vs.foldl (fun ab v =>
    if fl.gt v ab.1 then (v, ab.1) else if fl.gt v ab.2 then (ab.1, v) else ab)
    (fl.negInf, fl.negInf)

def groupMembers (g : Nat) : List Nat :=
  (List.range (perGroup cfg)).map fun j => g * perGroup cfg + j

/-- The best groups, given their scores. -/
def bestGroups (groupScore : Nat → F) : List (Option (Choice F)) :=
  insertAll (q8Better fl) (List.replicate cfg.topkGroup.toNat none)
    ((List.range cfg.nGroup.toNat).map fun g => ⟨groupScore g, g⟩)

/-- The best of the listed experts; an expert of a group that is not kept counts as zero. -/
def bestExperts (keep : Nat → Bool) (choice : Nat → F) (experts : List Nat) :
    List (Option (Choice F)) :=
  insertAll (q8Better fl) (List.replicate cfg.topK.toNat none)
    (experts.map fun e => ⟨if keep (e / perGroup cfg) then choice e else fl.zero, e⟩)

def takenIds : List (Option (Choice F)) → Option (List Nat)
  | [] => some []
  | none :: _ => none
  | some c :: places => (takenIds places).map fun ids => c.id :: ids

def routeWeights (x w : Nat → F) (ids : List Nat) : List F :=
  let raw := ids.map (expertScore fl cfg x w)
  if cfg.topK > 1 ∧ cfg.normTopkProb then
    let denom := fl.narrow
      (fl.addD (raw.foldl (fun sum v => fl.addD sum (fl.widen v)) fl.zeroD) fl.tinyD)
    raw.map fun v => fl.mul (fl.div v denom) cfg.routedScalingFactor
  else raw.map fun v => fl.mul v cfg.routedScalingFactor

/-- The result of a router, which fails on a place that is still free. -/
def finishRoute (x w : Nat → F) (best : List (Option (Choice F))) : Option (List Nat × List F) :=
  (takenIds best).map fun ids => (ids, routeWeights fl cfg x w ids)

/-- No place is free at the end, since `top_k` is at most the number of experts. -/
def kvlRouterNoauxTc (x w bias : Nat → F) (allocOk : Bool) : Option (List Nat × List F) :=
  if ¬ cfg.Ok then none
  else if !allocOk then none
  else
    let choice := choiceScore fl cfg x w bias
    let groupScore := fun g =>
      let ab := topTwo fl ((groupMembers cfg g).map choice)
      fl.add ab.1 (if perGroup cfg = 1 then fl.zero else ab.2)
    let groups := bestGroups fl cfg groupScore
    let keep := fun g => groups.any fun place => place.any fun c => c.id == g
    finishRoute fl cfg x w (bestExperts fl cfg keep choice (List.range cfg.nExperts.toNat))

/-- The score of a group counts its enabled members only. -/
def maskedGroupScore (disabled : Nat → Bool) (choice : Nat → F) (g : Nat) : F :=
  let members := (groupMembers cfg g).filter fun e => !disabled e
  let ab := topTwo fl (members.map choice)
  if members.length = 0 then fl.negInf
  else if members.length = 1 then ab.1
  else fl.add ab.1 ab.2

/-- The part of `q8_router_for_layer` that runs when a mask is loaded. -/
def q8RouteMasked (disabled : Nat → Bool) (x w bias : Nat → F) (allocOk : Bool) :
    Option (List Nat × List F) :=
  if ¬ cfg.Ok ∨ cfg.nExperts > moeLabMaxExperts then none
  else if !allocOk then none
  else
    let choice := choiceScore fl cfg x w bias
    let experts := (List.range cfg.nExperts.toNat).filter fun e => !disabled e
    if experts.length < cfg.topK.toNat then none
    else
      let groups := bestGroups fl cfg (maskedGroupScore fl cfg disabled choice)
      let keep := fun g => groups.any fun place =>
        place.any fun c => c.id == g && fl.isFinite c.score
      finishRoute fl cfg x w (bestExperts fl cfg keep choice experts)

def q8RouterForLayer (files : Bytes → Option Bytes) (env : Option Bytes) (g : MoeMask)
    (layer : Int) (x w bias : Nat → F) (allocOk : Bool) : Option (List Nat × List F) × MoeMask :=
  let (mask, g) := moeMaskLoad files env g
  if mask < 0 then (none, g)
  else if mask = 0 then (kvlRouterNoauxTc fl cfg x w bias allocOk, g)
  else (q8RouteMasked fl cfg (fun e => moeIsDisabled g layer e) x w bias allocOk, g)

variable {fl cfg}

theorem takenIds_eq_some {places : List (Option (Choice F))} {ids : List Nat}
    (h : takenIds places = some ids) : ∃ cs : List (Choice F), places = cs.map some ∧
      ids = cs.map (·.id) := by
  induction places generalizing ids with
  | nil =>
    obtain rfl := Option.some.inj h
    exact ⟨[], rfl, rfl⟩
  | cons place places ih =>
    cases place with
    | none => simp [takenIds] at h
    | some c =>
      obtain ⟨rest, hrest, rfl⟩ := Option.map_eq_some_iff.mp h
      obtain ⟨cs, rfl, rfl⟩ := ih hrest
      exact ⟨c :: cs, rfl, rfl⟩

/-- Ids that come out of the final selection are distinct and were candidates. -/
theorem takenIds_bestExperts {keep : Nat → Bool} {choice : Nat → F} {experts ids : List Nat}
    (hnd : experts.Nodup) (h : takenIds (bestExperts fl cfg keep choice experts) = some ids) :
    ids.Nodup ∧ ids.length = cfg.topK.toNat ∧ ∀ e ∈ ids, e ∈ experts := by
  obtain ⟨cs, hcs, rfl⟩ := takenIds_eq_some h
  have hkeys : (experts.map fun e =>
      (⟨if keep (e / perGroup cfg) then choice e else fl.zero, e⟩ : Choice F)).map (·.id) =
      experts := by simp [Function.comp_def]
  have hdist := (distinct_free (fun c : Choice F => c.id) cfg.topK.toNat).insertAll (q8Better fl)
    (hkeys.symm ▸ hnd) (by simp)
  refine ⟨hdist.nodup_map hcs, ?_, ?_⟩
  · have hlen := congrArg List.length hcs
    rw [bestExperts, insertAll_length, List.length_replicate, List.length_map] at hlen
    rw [List.length_map, hlen]
  · intro e he
    obtain ⟨c, hc, rfl⟩ := List.mem_map.mp he
    have hplace : some c ∈ bestExperts fl cfg keep choice experts := by
      rw [hcs]
      exact List.mem_map_of_mem hc
    rcases mem_insertAll (q8Better fl) hplace with hmem | hmem
    · obtain ⟨e', he', rfl⟩ := List.mem_map.mp hmem
      exact he'
    · simp at hmem

theorem routeWeights_length (x w : Nat → F) (ids : List Nat) :
    (routeWeights fl cfg x w ids).length = ids.length := by
  unfold routeWeights
  dsimp only
  split <;> simp

/-- What the unmasked router selects: `top_k` distinct ids in range, each with a weight. -/
theorem kvlRouterNoauxTc_ok {x w bias : Nat → F} {allocOk : Bool} {ids : List Nat} {ws : List F}
    (h : kvlRouterNoauxTc fl cfg x w bias allocOk = some (ids, ws)) :
    0 < cfg.topK ∧ ids.Nodup ∧ ids.length = cfg.topK.toNat ∧ ws.length = ids.length := by
  unfold kvlRouterNoauxTc at h
  split at h
  · simp at h
  rename_i hok
  split at h
  · simp at h
  dsimp only at h
  obtain ⟨ids', hids, heq⟩ := Option.map_eq_some_iff.mp h
  obtain ⟨rfl, rfl⟩ := Prod.mk.inj heq
  obtain ⟨hnd, hlen, _⟩ := takenIds_bestExperts List.nodup_range hids
  exact ⟨(not_not.mp hok).2.2.1, hnd, hlen, routeWeights_length x w ids'⟩

/-- What a masked route selects: distinct ids in range, none of them disabled. -/
theorem q8RouteMasked_ok {disabled : Nat → Bool} {x w bias : Nat → F} {allocOk : Bool}
    {ids : List Nat} {ws : List F}
    (h : q8RouteMasked fl cfg disabled x w bias allocOk = some (ids, ws)) :
    ids.Nodup ∧ ids.length = cfg.topK.toNat ∧
      ∀ e ∈ ids, e < cfg.nExperts.toNat ∧ disabled e = false := by
  unfold q8RouteMasked at h
  split at h
  · simp at h
  split at h
  · simp at h
  dsimp only at h
  split at h
  · simp at h
  obtain ⟨ids', hids, heq⟩ := Option.map_eq_some_iff.mp h
  obtain ⟨rfl, _⟩ := Prod.mk.inj heq
  obtain ⟨hnd, hlen, hmem⟩ := takenIds_bestExperts (List.nodup_range.filter _) hids
  refine ⟨hnd, hlen, fun e he => ?_⟩
  simpa using hmem e he

end Router

/-- Integers in the place of floats, with a sigmoid that still grows. -/
def intFloats : RouterFloats Int Int where
  zero := 0
  one := 1
  negInf := -1000000
  add := (· + ·)
  mul := (· * ·)
  div a b := 1000 * a / b
  neg := (- ·)
  exp a := 100 + a
  gt a b := a > b
  eq a b := a == b
  isFinite a := a != -1000000
  widen := id
  narrow := id
  addD := (· + ·)
  mulD := (· * ·)
  zeroD := 0
  tinyD := 0

end Kvl

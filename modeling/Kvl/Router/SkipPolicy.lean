import Kvl.Router.DynSkip

/-!
# Which experts a policy skips

The threshold on the normalised mass of a route, the least number of experts
that stay, and the counters that the runtime keeps for each family and layer.
-/

namespace Kvl

set_option autoImplicit false

structure SkipFloats (F D : Type*) extends RouterFloats F D where
  divD : D → D → D
  gtD : D → D → Bool

/-- A line of a policy file after `sscanf` or `split`. -/
structure PolicyLine (F : Type*) where
  family : String
  layer : Int
  threshold : F
  minKeep : Int

structure DynskipStats where
  events : Nat
  routed : Nat
  skipped : Nat
  deriving DecidableEq, Repr

def dynskipMaxLayers : Int := 256
def dynskipMaxTopk : Int := 256

/-- The globals that the calls of a prefill change. -/
structure DynskipRun (F : Type*) where
  globals : Dynskip F
  stats : MoeFamily → Int → DynskipStats

section Policy
variable {F D : Type*} (fl : SkipFloats F D)

def parseFamily (s : String) : Option MoeFamily :=
  if s = "content" then some .content
  else if s = "media" then some .media
  else if s = "control" then some .control
  else none

/-- The policies of all families and layers, and `g_policy_enabled`; `none` is -1. -/
def kvlMoeDynskipSetPolicy (line : PolicyLine F)
    (g : (MoeFamily → Nat → DynskipPolicy F) × Bool) :
    Option ((MoeFamily → Nat → DynskipPolicy F) × Bool) :=
  match parseFamily line.family with
  | none => none
  | some family =>
    if (family ≠ .content ∧ family ≠ .media) ∨ line.layer < dynskipFirstMoeLayer ∨
        dynskipMaxLayers ≤ line.layer ∨ fl.isFinite line.threshold = false ∨
        fl.gt fl.zero line.threshold = true ∨ fl.gt line.threshold fl.one = true ∨
        line.minKeep < 1 ∨ dynskipMaxTopk < line.minKeep then none
    else
      some (fun f l => if f = family ∧ (l : Int) = line.layer
          then ⟨line.threshold, line.minKeep⟩ else g.1 f l,
        if fl.gt line.threshold fl.zero then true else g.2)

/-- `kvl_moe_dynskip_load_policy` of the lines that are not empty and no comment. -/
def kvlMoeDynskipLoadPolicy (lines : List (PolicyLine F)) :
    Option (MoeFamily → Nat → DynskipPolicy F) :=
  match lines.foldlM (fun g line => kvlMoeDynskipSetPolicy fl line g)
      (fun _ _ => ⟨fl.zero, 0⟩, false) with
  | none => none
  | some (table, enabled) => if lines = [] ∨ enabled = false then none else some table

/-- `best`: the first of the largest masses that are not kept. -/
def bestUnkept (mass : List F) (keep : List Bool) : Option Nat :=
  (List.range mass.length).foldl (fun best i =>
    if keep.getD i true then best
    else
      match best with
      | none => some i
      | some b => if fl.gt (mass.getD i fl.zero) (mass.getD b fl.zero) then some i else some b) none

/-- The loop while `kept < min_keep`, with what is missing. -/
def keepMore (mass : List F) : Nat → List Bool → List Bool
  | 0, keep => keep
  | n + 1, keep =>
    match bestUnkept fl mass keep with
    | none => keep
    | some best => keepMore mass n (keep.set best true)

/-- The return code 0, and what is left in `keep` and `*out_skipped`. -/
structure SkipResult where
  ok : Bool
  keep : List Bool
  skipped : Int
  deriving DecidableEq, Repr

/-- What the policy of a family and a layer keeps of a route, and how many it skips. -/
def keepByMass (policy : DynskipPolicy F) (topWeights : List F) : SkipResult :=
  let topK : Int := topWeights.length
  let all := List.replicate topWeights.length true
  if fl.gt fl.zero policy.threshold || fl.eq policy.threshold fl.zero then ⟨true, all, 0⟩
  else if topWeights.any fun w => !fl.isFinite w || fl.gt fl.zero w then ⟨false, all, 0⟩
  else
    let sum := topWeights.foldl (fun sum w => fl.addD sum (fl.widen w)) fl.zeroD
    if !fl.gtD sum fl.zeroD then ⟨true, all, 0⟩
    else
      let mass := topWeights.map fun w => fl.narrow (fl.divD (fl.widen w) sum)
      let keep := mass.map fun m => fl.gt m policy.threshold || fl.eq m policy.threshold
      let minKeep := min (max policy.minKeep 1) topK
      let keep := keepMore fl mass (minKeep - keep.count true).toNat keep
      ⟨true, keep, topK - keep.count true⟩

/-- `none` is a call that is refused before it writes anything. -/
def kvlMoeDynskipApplyPolicy (policy : MoeFamily → Nat → DynskipPolicy F) (family : MoeFamily)
    (layer : Int) (topWeights : List F) : Option SkipResult :=
  let topK : Int := topWeights.length
  if topK ≤ 0 ∨ dynskipMaxTopk < topK ∨ layer < 0 ∨ dynskipMaxLayers ≤ layer then none
  else if family ≠ .content ∧ family ≠ .media then
    some ⟨true, List.replicate topWeights.length true, 0⟩
  else some (keepByMass fl (policy family layer.toNat) topWeights)

/-- The counters of `kvl_moe_token_q8_dynskip_auto` for a route of the router; what it
computes from the experts that are kept does not touch them. `none` is -1. -/
def dynskipCount (run : DynskipRun F) (layer : Int) (topWeights : List F) :
    Option (DynskipRun F) :=
  if run.globals.policyEnabled = false then some run
  else if (topWeights.length : Int) ≤ 0 ∨ dynskipMaxTopk < (topWeights.length : Int) then none
  else
    match nextFamily run.globals layer with
    | (none, _) => none
    | (some family, globals) =>
      match kvlMoeDynskipApplyPolicy fl globals.policy family layer topWeights with
      | none => none
      | some result =>
        if result.ok = false then none
        else
          some
            { globals := globals
              stats := fun f l =>
                let s := run.stats f l
                if f = family ∧ l = layer then
                  ⟨s.events + 1, s.routed + topWeights.length, s.skipped + result.skipped.toNat⟩
                else s }

end Policy

end Kvl

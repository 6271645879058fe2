import Kvl.Lib.Dict
import Kvl.Router.SkipPolicy
import Mathlib.Algebra.Field.Basic
import Mathlib.Order.Defs.LinearOrder
import Mathlib.Tactic.SplitIfs

/-!
# The dynamic-skip simulator

`simulate_kimi_dynskip.py` classifies the prompt again, reads the layer and the
place of an event off its number and counts what a policy would skip. On the
trace of its own prompt it counts what the runtime counted, and it refuses the
trace of a longer or a shorter prompt.
-/

namespace Kvl

set_option autoImplicit false

def imEnd : Int := 163586
def imUser : Int := 163587
def imAssistant : Int := 163588
def imSystem : Int := 163594
def imMiddle : Int := 163601
def mediaStart : Int := 163602
def mediaEnd : Int := 163604
def mediaPad : Int := 163605

/-- One round of the loop of `classify_prompt`. -/
def simClassifyToken (state : PromptScan) (token : Int) : PromptScan × MoeFamily :=
  if token = imSystem then (.system, .control)
  else if state = .system then
    if token = imEnd then (.outside, .control) else (state, .control)
  else if token = imUser then (.userHeader, .control)
  else if state = .userHeader then
    if token = imMiddle then (.userBody, .control) else (state, .control)
  else if state = .media then
    let family := if token = mediaPad then .media else .control
    if token = mediaEnd then (.userBody, family) else (state, family)
  else if state = .userBody then
    if token = imEnd then (.outside, .control)
    else if token = mediaStart then (.media, .control)
    else if token = mediaPad then (state, .media)
    else (state, .content)
  else if token = imAssistant then (.assistant, .control)
  else if state = .assistant then (state, .control)
  else if token = mediaPad then (state, .media)
  else (state, .control)

/-- `classify_prompt`; `none` is an exception, here and below. -/
def simClassifyPrompt (ids : List Int) : Option (List MoeFamily) :=
  if ids = [] then none
  else
    some (ids.foldl (fun st token =>
      let next := simClassifyToken st.1 token
      (next.1, st.2 ++ [next.2])) (PromptScan.outside, [])).2

/-- The fields of a row of a trace that are read. -/
structure TraceRow (K : Type*) where
  event : Int
  layer : Int
  weight : K

section Simulator
variable {K : Type*} [Field K] [LinearOrder K]

/-- `mapping`. -/
def simFamily (s : String) : Option MoeFamily :=
  if s = "content" then some .content else if s = "media" then some .media else none

/-- `load_policy` of the lines that are not empty and no comment. -/
def simLoadPolicy (lines : List (PolicyLine K)) : Option (List ((MoeFamily × Int) × (K × Int))) :=
  match lines.foldlM (fun out line =>
      match simFamily line.family with
      | none => none
      | some family =>
        if line.layer < 1 ∨ ¬ (0 ≤ line.threshold ∧ line.threshold ≤ 1) ∨ line.minKeep < 1 then none
        else some (Dict.set (family, line.layer) (line.threshold, line.minKeep) out)) [] with
  | none => none
  | some out => if out = [] ∨ (out.any fun item => decide (0 < item.2.1)) = false then none
    else some out

/-- `max(candidates, key=lambda i: mass[i])`, the first of the largest. -/
def simBest (mass : List K) (keep : List Bool) : Option Nat :=
  match (List.range keep.length).filter fun i => !keep.getD i true with
  | [] => none
  | i :: candidates =>
    some (candidates.foldl (fun best i =>
      if mass.getD best 0 < mass.getD i 0 then i else best) i)

/-- The loop while `sum(keep) < target`. -/
def simKeepMore (mass : List K) (target : Int) : Nat → List Bool → List Bool
  | 0, keep => keep
  | fuel + 1, keep =>
    if (keep.count true : Int) < target then
      match simBest mass keep with
      | none => keep
      | some best => simKeepMore mass target fuel (keep.set best true)
    else keep

/-- `apply_policy`; every round keeps one more, so the weights bound the rounds. -/
def simApplyPolicy (weights : List K) (threshold : K) (minKeep : Int) : Option Int :=
  if threshold ≤ 0 then some 0
  else if weights = [] ∨ ∃ w ∈ weights, w < 0 then none
  else
    let total := weights.sum
    if total ≤ 0 then some 0
    else
      let mass := weights.map (· / total)
      let keep := mass.map fun m => decide (threshold ≤ m)
      let target := min (max minKeep 1) weights.length
      let keep := simKeepMore mass target weights.length keep
      some (weights.length - keep.count true)

/-- `parse_trace`. -/
def simParseTrace (rows : List (TraceRow K)) : Option (List ((Int × Int) × List K)) :=
  let events := rows.foldl (fun events row =>
    Dict.modify (row.event, row.layer) (fun ws => ws.getD [] ++ [row.weight]) events) []
  if events = [] then none else some events

/-- One event of the loop of `simulate`. -/
def simEvent (policy : List ((MoeFamily × Int) × (K × Int))) (ids : List Int)
    (families : List MoeFamily) (stats : List ((MoeFamily × Int) × DynskipStats))
    (item : (Int × Int) × List K) : Option (List ((MoeFamily × Int) × DynskipStats)) :=
  let event := item.1.1
  let layer := item.1.2
  let weights := item.2
  if (event - 1) / (ids.length : Int) + 1 ≠ layer then none
  else
    let pos := (event - 1) % (ids.length : Int)
    let family := families.getD pos.toNat .control
    let entry := (Dict.get (family, layer) policy).getD (0, weights.length)
    match simApplyPolicy weights entry.1 entry.2 with
    | none => none
    | some skipped =>
      some (Dict.modify (family, layer) (fun slot =>
        let slot := slot.getD ⟨0, 0, 0⟩
        ⟨slot.events + 1, slot.routed + weights.length, slot.skipped + skipped.toNat⟩) stats)

/-- `simulate` of one sample. -/
def simulate (lines : List (PolicyLine K)) (ids : List Int) (rows : List (TraceRow K)) :
    Option (List ((MoeFamily × Int) × DynskipStats)) :=
  match simLoadPolicy lines, simClassifyPrompt ids, simParseTrace rows with
  | some policy, some families, some events =>
    events.foldlM (simEvent policy ids families) []
  | _, _, _ => none

end Simulator

/-- The arithmetic of an ordered field in the place of both float types. -/
def exactSkip {K : Type*} [Field K] [LinearOrder K] (fl : SkipFloats K K) : SkipFloats K K :=
  { fl with
    zero := 0, one := 1, gt := fun a b => decide (b < a), eq := fun a b => decide (a = b)
    isFinite := fun _ => true, widen := id, narrow := id, addD := (· + ·), zeroD := 0
    divD := (· / ·), gtD := fun a b => decide (b < a) }

/-! ### The classifiers -/

section Classify

theorem simClassifyToken_eq (state : PromptScan) (token : Int) :
    simClassifyToken state token = classifyToken state token := by
  unfold simClassifyToken classifyToken imSystem imEnd imUser imMiddle mediaPad mediaEnd mediaStart
    imAssistant kimiImSystemId kimiImEndId kimiImUserId kimiImMiddleId kimiMediaPadId
    kimiMediaEndId kimiMediaStartId kimiImAssistantId
  cases state with
  | outside => rfl
  | assistant => rfl
  | userBody => rfl
  | system => split_ifs <;> rfl
  | userHeader => split_ifs <;> rfl
  | media => split_ifs <;> rfl

theorem simClassify_fold (state : PromptScan) (ids : List Int) (out : List MoeFamily) :
    (ids.foldl (fun st token =>
      let next := simClassifyToken st.1 token
      (next.1, st.2 ++ [next.2])) (state, out)).2 = out ++ classifyFrom state ids := by
  induction ids generalizing state out with
  | nil => exact (List.append_nil out).symm
  | cons token ids ih =>
    rw [List.foldl_cons]
    dsimp only
    rw [ih, simClassifyToken_eq, List.append_assoc]
    rfl

theorem simClassifyPrompt_eq {ids : List Int} (hne : ids ≠ []) :
    simClassifyPrompt ids = some (classifyPrompt ids) := by
  unfold simClassifyPrompt
  rw [if_neg hne, simClassify_fold]
  rfl

end Classify

section Policies
variable {K : Type*} [Field K]

/-! ### The policies -/

/-- The tables of the two sides hold the same policies. -/
def SamePolicy (table : MoeFamily → Nat → DynskipPolicy K)
    (policy : List ((MoeFamily × Int) × (K × Int))) : Prop :=
  (∀ layer, Dict.get (MoeFamily.control, layer) policy = none) ∧
    ∀ family, family ≠ .control → ∀ layer : Nat,
      table family layer = ((Dict.get (family, (layer : Int)) policy).map
        fun p => (⟨p.1, p.2⟩ : DynskipPolicy K)).getD ⟨0, 0⟩

theorem parseFamily_simFamily {s : String} {family : MoeFamily} (h : simFamily s = some family) :
    parseFamily s = some family ∧ family ≠ .control := by
  unfold simFamily at h
  unfold parseFamily
  split at h
  · rename_i hs
    obtain rfl := Option.some.inj h
    exact ⟨if_pos hs, by simp⟩
  · rename_i hs
    split at h
    · rename_i hs'
      obtain rfl := Option.some.inj h
      rw [if_neg hs, if_pos hs']
      exact ⟨rfl, by simp⟩
    · simp at h

theorem samePolicy_set {table : MoeFamily → Nat → DynskipPolicy K}
    {policy : List ((MoeFamily × Int) × (K × Int))} (hsame : SamePolicy table policy)
    {family : MoeFamily} (hfamily : family ≠ .control) (layer : Int) (threshold : K)
    (minKeep : Int) :
    SamePolicy (fun f l => if f = family ∧ (l : Int) = layer then ⟨threshold, minKeep⟩
      else table f l) (Dict.set (family, layer) (threshold, minKeep) policy) := by
  obtain ⟨hcontrol, htable⟩ := hsame
  constructor
  · intro l
    rw [Dict.get_set_of_ne (by simp [Ne.symm hfamily])]
    exact hcontrol l
  · intro f hf l
    dsimp only
    by_cases hhere : f = family ∧ (l : Int) = layer
    · rw [if_pos hhere, hhere.1, hhere.2, Dict.get_set_self]
      rfl
    · rw [if_neg hhere, Dict.get_set_of_ne]
      · exact htable f hf l
      · intro heq
        exact hhere ⟨congrArg Prod.fst heq, congrArg Prod.snd heq⟩

variable [LinearOrder K] {fl : SkipFloats K K}

theorem loadLines_same {lines : List (PolicyLine K)}
    {g g' : (MoeFamily → Nat → DynskipPolicy K) × Bool}
    {out out' : List ((MoeFamily × Int) × (K × Int))} (hsame : SamePolicy g.1 out)
    (hruntime : lines.foldlM (fun g line => kvlMoeDynskipSetPolicy (exactSkip fl) line g) g = some g')
    (hsim : lines.foldlM (fun out line =>
      match simFamily line.family with
      | none => none
      | some family =>
        if line.layer < 1 ∨ ¬ (0 ≤ line.threshold ∧ line.threshold ≤ 1) ∨ line.minKeep < 1 then none
        else some (Dict.set (family, line.layer) (line.threshold, line.minKeep) out)) out =
      some out') : SamePolicy g'.1 out' := by
  induction lines generalizing g out with
  | nil =>
    obtain rfl := Option.some.inj hruntime
    obtain rfl := Option.some.inj hsim
    exact hsame
  | cons line lines ih =>
    rw [List.foldlM_cons] at hruntime hsim
    obtain ⟨out₁, hfirstSim, hrestSim⟩ := Option.bind_eq_some_iff.mp hsim
    obtain ⟨g₁, hfirst, hrest⟩ := Option.bind_eq_some_iff.mp hruntime
    refine ih ?_ hrest hrestSim
    split at hfirstSim
    · simp at hfirstSim
    rename_i family hfamily
    obtain ⟨hparse, hcontrol⟩ := parseFamily_simFamily hfamily
    split at hfirstSim
    · simp at hfirstSim
    obtain rfl := Option.some.inj hfirstSim
    unfold kvlMoeDynskipSetPolicy at hfirst
    rw [hparse] at hfirst
    dsimp only at hfirst
    split at hfirst
    · simp at hfirst
    obtain rfl := Option.some.inj hfirst
    exact samePolicy_set hsame hcontrol line.layer line.threshold line.minKeep

/-- Both sides read the same policies out of a file that both accept. -/
theorem loadPolicy_same {lines : List (PolicyLine K)} {table : MoeFamily → Nat → DynskipPolicy K}
    {policy : List ((MoeFamily × Int) × (K × Int))}
    (htable : kvlMoeDynskipLoadPolicy (exactSkip fl) lines = some table)
    (hpolicy : simLoadPolicy lines = some policy) : SamePolicy table policy := by
  unfold kvlMoeDynskipLoadPolicy at htable
  unfold simLoadPolicy at hpolicy
  split at htable
  · simp at htable
  rename_i table' enabled hruntime
  split at htable
  · simp at htable
  obtain rfl := Option.some.inj htable
  split at hpolicy
  · simp at hpolicy
  rename_i out hsim
  split at hpolicy
  · simp at hpolicy
  obtain rfl := Option.some.inj hpolicy
  exact loadLines_same ⟨fun _ => rfl, fun _ _ _ => rfl⟩ hruntime hsim

end Policies

/-! ### What a policy skips -/

section Skip
variable {K : Type*} [Field K] [LinearOrder K] {fl : SkipFloats K K}

theorem bestUnkept_from (mass : List K) (candidates : List Nat) (b : Nat) :
    candidates.foldl (fun best i =>
      match best with
      | none => some i
      | some b => if (exactSkip fl).gt (mass.getD i 0) (mass.getD b 0) then some i else some b)
      (some b) =
      some (candidates.foldl (fun best i =>
        if mass.getD best 0 < mass.getD i 0 then i else best) b) := by
  induction candidates generalizing b with
  | nil => rfl
  | cons i candidates ih =>
    rw [List.foldl_cons, List.foldl_cons]
    change List.foldl _ (if decide (mass.getD b 0 < mass.getD i 0) = true then some i else some b)
      candidates = _
    by_cases h : mass.getD b 0 < mass.getD i 0
    · rw [if_pos (decide_eq_true h), if_pos h]
      exact ih i
    · rw [if_neg (fun hgt => h (of_decide_eq_true hgt)), if_neg h]
      exact ih b

/-- Both sides take the same expert next. -/
theorem bestUnkept_eq {mass : List K} {keep : List Bool} (hlen : keep.length = mass.length) :
    bestUnkept (exactSkip fl) mass keep = simBest mass keep := by
  have hfilter : bestUnkept (exactSkip fl) mass keep =
      ((List.range mass.length).filter fun i => !keep.getD i true).foldl (fun best i =>
        match best with
        | none => some i
        | some b =>
          if (exactSkip fl).gt (mass.getD i 0) (mass.getD b 0) then some i else some b) none := by
    rw [List.foldl_filter]
    unfold bestUnkept
    congr 1
    funext best i
    cases keep.getD i true with
    | true => rfl
    | false => rfl
  rw [hfilter, ← hlen]
  unfold simBest
  cases (List.range keep.length).filter fun i => !keep.getD i true with
  | nil => rfl
  | cons i candidates => exact bestUnkept_from mass candidates i

theorem simBest_unkept {mass : List K} {keep : List Bool} {best : Nat}
    (h : simBest mass keep = some best) : ∃ hlt : best < keep.length, keep[best] = false := by
  have hmem : ∀ (candidates : List Nat) (b : Nat), candidates.foldl (fun best i =>
      if mass.getD best 0 < mass.getD i 0 then i else best) b ∈ b :: candidates := by
    intro candidates
    induction candidates with
    | nil => exact fun b => List.mem_cons_self
    | cons i candidates ih =>
      intro b
      rw [List.foldl_cons]
      split
      · exact List.mem_cons_of_mem b (ih i)
      · rcases List.mem_cons.mp (ih b) with heq | hlater
        · rw [heq]
          exact List.mem_cons_self
        · exact List.mem_cons_of_mem b (List.mem_cons_of_mem i hlater)
  unfold simBest at h
  split at h
  · simp at h
  · rename_i i candidates hlist
    have hbest := hmem candidates i
    rw [Option.some.inj h, ← hlist, List.mem_filter, List.mem_range] at hbest
    obtain ⟨hlt, hfalse⟩ := hbest
    refine ⟨hlt, ?_⟩
    rw [List.getD_eq_getElem _ _ hlt] at hfalse
    simpa using hfalse

/-- A round keeps one more. -/
theorem count_set_unkept {keep : List Bool} {best : Nat} (hlt : best < keep.length)
    (hfalse : keep[best] = false) : (keep.set best true).count true = keep.count true + 1 := by
  rw [List.count_set hlt, hfalse]
  rfl

/-- The two loops, while their bound on the rounds lasts. -/
theorem keepMore_eq (mass : List K) (target : Int) {need fuel : Nat} {keep : List Bool}
    (hlen : keep.length = mass.length) (hneed : need = (target - keep.count true).toNat)
    (hfuel : need ≤ fuel) :
    simKeepMore mass target fuel keep = keepMore (exactSkip fl) mass need keep := by
  induction need generalizing fuel keep with
  | zero =>
    unfold keepMore
    cases fuel with
    | zero => rfl
    | succ fuel =>
      unfold simKeepMore
      rw [if_neg (by omega)]
  | succ need ih =>
    obtain ⟨fuel, rfl⟩ : ∃ n, fuel = n + 1 := ⟨fuel - 1, by omega⟩
    unfold simKeepMore keepMore
    rw [if_pos (by omega), bestUnkept_eq hlen]
    cases hbest : simBest mass keep with
    | none => rfl
    | some best =>
      obtain ⟨hlt, hfalse⟩ := simBest_unkept hbest
      have hcount := count_set_unkept hlt hfalse
      exact ih (by rw [List.length_set]; exact hlen) (by omega) (by omega)

/-- What the runtime lets an event of a trace be. -/
def Seen (topWeights : List K) : Prop :=
  topWeights ≠ [] ∧ (topWeights.length : Int) ≤ dynskipMaxTopk ∧ ∀ w ∈ topWeights, 0 ≤ w

theorem sum_eq_foldl (topWeights : List K) :
    topWeights.foldl (fun sum w => (exactSkip fl).addD sum ((exactSkip fl).widen w))
      (exactSkip fl).zeroD = topWeights.sum := by
  change topWeights.foldl (fun sum w => sum + w) 0 = _
  rw [List.sum_eq_foldl]

theorem policy_off {threshold : K} :
    ((exactSkip fl).gt (exactSkip fl).zero threshold ||
      (exactSkip fl).eq threshold (exactSkip fl).zero) = true ↔ threshold ≤ 0 := by
  change (decide (threshold < 0) || decide (threshold = 0)) = true ↔ _
  rw [Bool.or_eq_true_iff, decide_eq_true_iff, decide_eq_true_iff, le_iff_lt_or_eq]

theorem weights_valid {topWeights : List K} (hnonneg : ∀ w ∈ topWeights, 0 ≤ w) :
    ¬ (topWeights.any fun w => !(exactSkip fl).isFinite w ||
      (exactSkip fl).gt (exactSkip fl).zero w) = true := by
  intro h
  obtain ⟨w, hw, hbad⟩ := List.any_eq_true.mp h
  exact not_lt_of_ge (hnonneg w hw) (of_decide_eq_true hbad)

/-- The experts whose normalised weight reaches the threshold. -/
def thresholdMask (mass : List K) (threshold : K) : List Bool :=
  mass.map fun m => decide (threshold ≤ m)

/-- A policy that is on, for weights with a positive sum. -/
theorem keepByMass_active (policy : DynskipPolicy K) {topWeights : List K}
    (hnonneg : ∀ w ∈ topWeights, 0 ≤ w) (hon : 0 < policy.threshold) (hsum : 0 < topWeights.sum) :
    ∃ keep, keepByMass (exactSkip fl) policy topWeights =
        ⟨true, keep, (topWeights.length : Int) - keep.count true⟩ ∧
      keep = keepMore (exactSkip fl) (topWeights.map (· / topWeights.sum))
        (min (max policy.minKeep 1) topWeights.length -
          (thresholdMask (topWeights.map (· / topWeights.sum)) policy.threshold).count true).toNat
        (thresholdMask (topWeights.map (· / topWeights.sum)) policy.threshold) := by
  have hpositive : ¬ (!(exactSkip fl).gtD topWeights.sum (exactSkip fl).zeroD) = true := by
    change ¬ (!decide ((0 : K) < topWeights.sum)) = true
    rw [decide_eq_true hsum]
    exact Bool.false_ne_true
  have hkeep : thresholdMask (topWeights.map (· / topWeights.sum)) policy.threshold =
      (topWeights.map fun w => (exactSkip fl).narrow ((exactSkip fl).divD
        ((exactSkip fl).widen w) topWeights.sum)).map fun m =>
          (exactSkip fl).gt m policy.threshold || (exactSkip fl).eq m policy.threshold := by
    apply List.map_congr_left
    intro m _
    change _ = (decide (policy.threshold < m) || decide (m = policy.threshold))
    rw [Bool.eq_iff_iff, Bool.or_eq_true_iff, decide_eq_true_iff, decide_eq_true_iff,
      decide_eq_true_iff, le_iff_lt_or_eq, @eq_comm K m]
  unfold keepByMass
  dsimp only
  rw [sum_eq_foldl, if_neg (fun h => not_lt_of_ge (policy_off.mp h) hon),
    if_neg (weights_valid hnonneg), if_neg hpositive, ← hkeep]
  exact ⟨_, rfl, rfl⟩

/-- The rule for a family with a policy. -/
theorem keepByMass_eq (policy : DynskipPolicy K) {topWeights : List K} (hseen : Seen topWeights) :
    ∃ keep skipped, keepByMass (exactSkip fl) policy topWeights = ⟨true, keep, skipped⟩ ∧
      simApplyPolicy topWeights policy.threshold policy.minKeep = some skipped := by
  obtain ⟨hne, _, hnonneg⟩ := hseen
  have hpos := List.length_pos_iff.mpr hne
  have hsim : ¬ (topWeights = [] ∨ ∃ w ∈ topWeights, w < 0) := by
    rintro (h | ⟨w, hw, hneg⟩)
    · exact hne h
    · exact not_lt_of_ge (hnonneg w hw) hneg
  by_cases hoff : policy.threshold ≤ 0
  · unfold keepByMass simApplyPolicy
    dsimp only
    rw [if_pos (policy_off.mpr hoff), if_pos hoff]
    exact ⟨_, _, rfl, rfl⟩
  · by_cases hzero : topWeights.sum ≤ 0
    · have hsum : (!(exactSkip fl).gtD topWeights.sum (exactSkip fl).zeroD) = true := by
        change (!decide ((0 : K) < topWeights.sum)) = true
        rw [decide_eq_false (not_lt_of_ge hzero)]
        rfl
      unfold keepByMass simApplyPolicy
      dsimp only
      rw [sum_eq_foldl, if_neg (fun h => hoff (policy_off.mp h)), if_neg (weights_valid hnonneg),
        if_neg hoff, if_neg hsim, if_pos hsum, if_pos hzero]
      exact ⟨_, _, rfl, rfl⟩
    · obtain ⟨keep, hkeep, hmore⟩ := @keepByMass_active K _ _ fl policy _ hnonneg
        (lt_of_not_ge hoff) (lt_of_not_ge hzero)
      refine ⟨_, _, hkeep, ?_⟩
      unfold simApplyPolicy
      dsimp only
      rw [if_neg hoff, if_neg hsim, if_neg hzero]
      unfold thresholdMask at hmore
      rw [@keepMore_eq K _ _ fl _ _ _ _ _ ?_ rfl ?_, ← hmore]
      · rw [List.length_map, List.length_map]
      · omega

/-- Both sides skip as many experts of a route. -/
theorem applyPolicy_eq {table : MoeFamily → Nat → DynskipPolicy K}
    {policy : List ((MoeFamily × Int) × (K × Int))} (hsame : SamePolicy table policy)
    (family : MoeFamily) {layer : Int} (hlow : 0 ≤ layer) (hhigh : layer < dynskipMaxLayers)
    {topWeights : List K} (hseen : Seen topWeights) :
    ∃ keep skipped, kvlMoeDynskipApplyPolicy (exactSkip fl) table family layer topWeights =
        some ⟨true, keep, skipped⟩ ∧
      simApplyPolicy topWeights ((Dict.get (family, layer) policy).getD (0, topWeights.length)).1
        ((Dict.get (family, layer) policy).getD (0, topWeights.length)).2 = some skipped := by
  obtain ⟨hne, hmax, hnonneg⟩ := hseen
  have hpos := List.length_pos_iff.mpr hne
  have hargs : ¬ ((topWeights.length : Int) ≤ 0 ∨ dynskipMaxTopk < (topWeights.length : Int) ∨
      layer < 0 ∨ dynskipMaxLayers ≤ layer) := by omega
  unfold kvlMoeDynskipApplyPolicy
  dsimp only
  rw [if_neg hargs]
  by_cases hcontrol : family = .control
  · subst hcontrol
    rw [if_pos ⟨by simp, by simp⟩, hsame.1]
    exact ⟨_, _, rfl, if_pos (le_refl (0 : K))⟩
  · have hfamily : ¬ (family ≠ .content ∧ family ≠ .media) := by
      cases family with
      | control => exact absurd rfl hcontrol
      | content => simp
      | media => simp
    rw [if_neg hfamily]
    have htable := hsame.2 family hcontrol layer.toNat
    rw [Int.toNat_of_nonneg hlow] at htable
    rw [htable]
    cases Dict.get (family, layer) policy with
    | none =>
      have hoff : ((exactSkip fl).gt (exactSkip fl).zero (0 : K) ||
          (exactSkip fl).eq 0 (exactSkip fl).zero) = true :=
        Bool.or_eq_true_iff.mpr (.inr (decide_eq_true rfl))
      refine ⟨List.replicate topWeights.length true, 0, ?_, if_pos (le_refl (0 : K))⟩
      exact congrArg some (if_pos hoff)
    | some p =>
      obtain ⟨keep, skipped, hkeep, hsim⟩ := @keepByMass_eq K _ _ fl ⟨p.1, p.2⟩ _
        ⟨hne, hmax, hnonneg⟩
      exact ⟨keep, skipped, congrArg some hkeep, hsim⟩

end Skip

/-! ### Traces -/

section Trace
variable {K : Type*}

/-- The rows of the events of a prefill of `m` tokens, as the runtime numbers them. -/
def prefillTrace (m : Nat) (routes : List (List K)) : List (TraceRow K) :=
  ((prefillMoeCalls m).zip routes).zipIdx.flatMap fun event =>
    event.1.2.map fun weight => ⟨event.2 + 1, event.1.1, weight⟩

/-- The events that `parse_trace` makes of them. -/
def prefillEvents (m : Nat) (routes : List (List K)) : List ((Int × Int) × List K) :=
  ((prefillMoeCalls m).zip routes).zipIdx.map fun event =>
    (((event.2 : Int) + 1, event.1.1), event.1.2)

/-- The rows of one event are collected under its key. -/
theorem parse_event {key : Int × Int} {d : List ((Int × Int) × List K)}
    (hnew : key ∉ d.map Prod.fst) {weights : List K} (hne : weights ≠ []) :
    (weights.map fun weight => (⟨key.1, key.2, weight⟩ : TraceRow K)).foldl (fun events row =>
        Dict.modify (row.event, row.layer) (fun ws => ws.getD [] ++ [row.weight]) events) d =
      d ++ [(key, weights)] := by
  have hmore : ∀ (weights seen : List K),
      (weights.map fun weight => (⟨key.1, key.2, weight⟩ : TraceRow K)).foldl (fun events row =>
        Dict.modify (row.event, row.layer) (fun ws => ws.getD [] ++ [row.weight]) events)
        (d ++ [(key, seen)]) = d ++ [(key, seen ++ weights)] := by
    intro weights
    induction weights with
    | nil =>
      intro seen
      rw [List.append_nil]
      rfl
    | cons weight weights ih =>
      intro seen
      rw [List.map_cons, List.foldl_cons, Dict.modify_last hnew, Option.getD_some, ih,
        List.append_assoc]
      rfl
  obtain ⟨weight, weights, rfl⟩ := List.exists_cons_of_ne_nil hne
  rw [List.map_cons, List.foldl_cons, Dict.modify_new hnew, Option.getD_none, List.nil_append, hmore]
  rfl

theorem parse_events {events d : List ((Int × Int) × List K)}
    (hnodup : ((d ++ events).map Prod.fst).Nodup) (hne : ∀ event ∈ events, event.2 ≠ []) :
    (events.flatMap fun event => event.2.map fun weight =>
        (⟨event.1.1, event.1.2, weight⟩ : TraceRow K)).foldl (fun events row =>
        Dict.modify (row.event, row.layer) (fun ws => ws.getD [] ++ [row.weight]) events) d =
      d ++ events := by
  induction events generalizing d with
  | nil => exact (List.append_nil d).symm
  | cons event events ih =>
    have hnew : event.1 ∉ d.map Prod.fst := by
      intro hmem
      rw [List.map_append, List.map_cons] at hnodup
      exact (List.nodup_append.mp hnodup).2.2 event.1 hmem event.1 List.mem_cons_self rfl
    rw [List.flatMap_cons, List.foldl_append, parse_event hnew (hne event List.mem_cons_self), ih]
    · rw [List.append_assoc]
      rfl
    · rw [List.append_assoc]
      exact hnodup
    · exact fun later hlater => hne later (List.mem_cons_of_mem event hlater)

theorem prefillEvents_nodup (m : Nat) (routes : List (List K)) :
    ((prefillEvents m routes).map Prod.fst).Nodup := by
  apply List.Nodup.of_map fun key : Int × Int => (key.1 - 1).toNat
  unfold prefillEvents
  rw [List.map_map, List.map_map]
  have hnumbers : ((prefillMoeCalls m).zip routes).zipIdx.map
      (((fun key : Int × Int => (key.1 - 1).toNat) ∘ Prod.fst) ∘ fun event =>
        (((event.2 : Int) + 1, event.1.1), event.1.2)) =
      ((prefillMoeCalls m).zip routes).zipIdx.map Prod.snd := by
    apply List.map_congr_left
    intro event _
    change ((event.2 : Int) + 1 - 1).toNat = event.2
    omega
  rw [hnumbers, List.zipIdx_map_snd]
  exact List.nodup_range'

theorem simParseTrace_prefill {m : Nat} {routes : List (List K)}
    (hne : ∀ weights ∈ routes, weights ≠ []) (hsome : prefillEvents m routes ≠ []) :
    simParseTrace (prefillTrace m routes) = some (prefillEvents m routes) := by
  have hrows : prefillTrace m routes = (prefillEvents m routes).flatMap fun event =>
      event.2.map fun weight => (⟨event.1.1, event.1.2, weight⟩ : TraceRow K) := by
    unfold prefillTrace prefillEvents
    rw [List.flatMap_map]
  have hweights : ∀ event ∈ prefillEvents m routes, event.2 ≠ [] := by
    intro event hevent
    obtain ⟨call, hcall, rfl⟩ := List.mem_map.mp hevent
    exact hne _ (List.of_mem_zip (List.fst_mem_of_mem_zipIdx hcall)).2
  have hparse := @parse_events K (prefillEvents m routes) [] (prefillEvents_nodup m routes) hweights
  unfold simParseTrace
  rw [hrows, hparse, List.nil_append]
  exact if_neg hsome

theorem prefillEvents_length {m : Nat} {routes : List (List K)} (hlen : routes.length = 26 * m) :
    (prefillEvents m routes).length = 26 * m := by
  unfold prefillEvents
  rw [List.length_map, List.length_zipIdx, List.length_zip, prefillMoeCalls_length, hlen,
    Nat.min_self]

theorem prefillEvents_getElem {m : Nat} {routes : List (List K)} (hlen : routes.length = 26 * m)
    {i : Nat} (hi : i < (prefillEvents m routes).length) :
    ∃ hi' : i < routes.length,
      (prefillEvents m routes)[i] = (((i : Int) + 1, 1 + ((i / m : Nat) : Int)), routes[i]) := by
  have hlength := prefillEvents_length hlen
  refine ⟨by omega, ?_⟩
  simp only [prefillEvents, List.getElem_map, List.getElem_zipIdx, List.getElem_zip,
    prefillMoeCalls_getElem, Nat.zero_add]

end Trace

section Run
variable {K : Type*} [Field K] [LinearOrder K] (fl : SkipFloats K K)

/-- The calls of the runtime in a prefill of `m` tokens. -/
def runPrefill (m : Nat) (routes : List (List K)) (run : DynskipRun K) : Option (DynskipRun K) :=
  ((prefillMoeCalls m).zip routes).foldlM (fun run call =>
    dynskipCount (exactSkip fl) run call.1 call.2) run

variable {fl}

/-- The counters of both sides. -/
def SameStats (stats : MoeFamily → Int → DynskipStats)
    (sim : List ((MoeFamily × Int) × DynskipStats)) : Prop :=
  ∀ family layer, stats family layer = (Dict.get (family, layer) sim).getD ⟨0, 0, 0⟩

/-- A call of the runtime and an event of the simulator. -/
theorem count_step {g : Dynskip K} {prompt : List Int} (hstart : PrefillStarts g prompt)
    {policy : List ((MoeFamily × Int) × (K × Int))} (hsame : SamePolicy g.policy policy)
    {stats : MoeFamily → Int → DynskipStats} {sim : List ((MoeFamily × Int) × DynskipStats)}
    (hstats : SameStats stats sim) {k : Nat} (hk : k < 26 * prompt.length) {topWeights : List K}
    (hseen : Seen topWeights) :
    ∃ stats' sim',
      dynskipCount (exactSkip fl) ⟨g.cursorAt prompt.length k, stats⟩
          (1 + ((k / prompt.length : Nat) : Int)) topWeights =
        some ⟨g.cursorAt prompt.length (k + 1), stats'⟩ ∧
      simEvent policy prompt (classifyPrompt prompt) sim
          (((k : Int) + 1, 1 + ((k / prompt.length : Nat) : Int)), topWeights) = some sim' ∧
      SameStats stats' sim' := by
  have hn : 0 < prompt.length := List.length_pos_iff.mpr hstart.nonempty
  have hrow : k / prompt.length < 26 := (Nat.div_lt_iff_lt_mul hn).mpr hk
  have hmax : (topWeights.length : Int) ≤ dynskipMaxTopk := hseen.2.1
  have hpos := List.length_pos_iff.mpr hseen.1
  have hlayers : dynskipMaxLayers = 256 := rfl
  have hnext := hstart.next hk (1 + ((k / prompt.length : Nat) : Int))
  rw [if_pos rfl] at hnext
  have hpolicy : (g.cursorAt prompt.length (k + 1)).policy = g.policy := by
    unfold Dynskip.cursorAt
    split <;> rfl
  have henabled : (g.cursorAt prompt.length k).policyEnabled = true := by
    unfold Dynskip.cursorAt
    split <;> exact hstart.enabled
  obtain ⟨keep, skipped, hruntime, hsim⟩ := @applyPolicy_eq K _ _ fl _ _ hsame
    ((classifyPrompt prompt).getD (k % prompt.length) .control)
    (1 + ((k / prompt.length : Nat) : Int))
    (Int.add_nonneg Int.one_nonneg (Int.natCast_nonneg _)) (by omega) _ hseen
  have hcount : dynskipCount (exactSkip fl) ⟨g.cursorAt prompt.length k, stats⟩
      (1 + ((k / prompt.length : Nat) : Int)) topWeights =
      some ⟨g.cursorAt prompt.length (k + 1), fun f l =>
        if f = (classifyPrompt prompt).getD (k % prompt.length) .control ∧
            l = 1 + ((k / prompt.length : Nat) : Int) then
          ⟨(stats f l).events + 1, (stats f l).routed + topWeights.length,
            (stats f l).skipped + skipped.toNat⟩
        else stats f l⟩ := by
    unfold dynskipCount
    dsimp only
    rw [henabled, if_neg (by simp), if_neg (by omega), hnext]
    dsimp only
    rw [hpolicy, hruntime]
    rfl
  have hevent : simEvent policy prompt (classifyPrompt prompt) sim
      (((k : Int) + 1, 1 + ((k / prompt.length : Nat) : Int)), topWeights) =
      some (Dict.modify ((classifyPrompt prompt).getD (k % prompt.length) .control,
          1 + ((k / prompt.length : Nat) : Int)) (fun slot =>
        let slot := slot.getD ⟨0, 0, 0⟩
        ⟨slot.events + 1, slot.routed + topWeights.length, slot.skipped + skipped.toNat⟩) sim) := by
    have hshift : (k : Int) + 1 - 1 = k := by omega
    unfold simEvent
    dsimp only
    rw [hshift, ← Int.natCast_ediv, ← Int.natCast_emod, Int.toNat_natCast, hsim, if_neg (by omega)]
  refine ⟨_, _, hcount, hevent, ?_⟩
  intro family layer
  by_cases hhere : family = (classifyPrompt prompt).getD (k % prompt.length) .control ∧
      layer = 1 + ((k / prompt.length : Nat) : Int)
  · obtain ⟨rfl, rfl⟩ := hhere
    dsimp only
    rw [if_pos ⟨rfl, rfl⟩, Dict.get_modify_self, Option.getD_some, hstats]
  · dsimp only
    rw [if_neg hhere, Dict.get_modify_of_ne]
    · exact hstats family layer
    · intro heq
      exact hhere ⟨congrArg Prod.fst heq, congrArg Prod.snd heq⟩

theorem count_run {g : Dynskip K} {prompt : List Int} (hstart : PrefillStarts g prompt)
    {policy : List ((MoeFamily × Int) × (K × Int))} (hsame : SamePolicy g.policy policy)
    (calls : List (Int × List K)) {k : Nat} (hk : k + calls.length ≤ 26 * prompt.length)
    (hcalls : ∀ i (hi : i < calls.length),
      calls[i].1 = 1 + (((k + i) / prompt.length : Nat) : Int) ∧ Seen calls[i].2)
    {stats : MoeFamily → Int → DynskipStats} {sim : List ((MoeFamily × Int) × DynskipStats)}
    (hstats : SameStats stats sim) :
    ∃ stats' sim',
      calls.foldlM (fun run call => dynskipCount (exactSkip fl) run call.1 call.2)
          ⟨g.cursorAt prompt.length k, stats⟩ =
        some ⟨g.cursorAt prompt.length (k + calls.length), stats'⟩ ∧
      ((calls.zipIdx k).map fun event => (((event.2 : Int) + 1, event.1.1), event.1.2)).foldlM
          (simEvent policy prompt (classifyPrompt prompt)) sim = some sim' ∧
      SameStats stats' sim' := by
  induction calls generalizing k stats sim with
  | nil => exact ⟨stats, sim, rfl, rfl, hstats⟩
  | cons call calls ih =>
    obtain ⟨hlayer, hseen⟩ := hcalls 0 (Nat.zero_lt_succ _)
    rw [List.getElem_cons_zero, Nat.add_zero] at hlayer
    rw [List.getElem_cons_zero] at hseen
    rw [List.length_cons] at hk
    obtain ⟨stats₁, sim₁, hcount, hevent, hstats₁⟩ :=
      @count_step K _ _ fl g prompt hstart policy hsame stats sim hstats k (by omega) _ hseen
    rw [← hlayer] at hcount hevent
    obtain ⟨stats', sim', hrun, hevents, hlast⟩ := @ih (k + 1) (by omega) (fun i hi => by
      have hcall := hcalls (i + 1) (Nat.succ_lt_succ hi)
      rw [List.getElem_cons_succ] at hcall
      have hshift : k + 1 + i = k + (i + 1) := by omega
      rw [hshift]
      exact hcall) stats₁ sim₁ hstats₁
    refine ⟨stats', sim', ?_, ?_, hlast⟩
    · have hshift : k + (calls.length + 1) = k + 1 + calls.length := by omega
      rw [List.foldlM_cons, hcount, List.length_cons, hshift]
      exact hrun
    · rw [List.zipIdx_cons, List.map_cons, List.foldlM_cons, hevent]
      exact hevents

/-- A loop that raises on one of its items, whatever came before. -/
theorem foldlM_raises {σ α : Type*} {f : σ → α → Option σ} {items : List α} {item : α}
    (hmem : item ∈ items) (hraises : ∀ s, f s item = none) (s : σ) : items.foldlM f s = none := by
  induction items generalizing s with
  | nil => exact absurd hmem List.not_mem_nil
  | cons first items ih =>
    rw [List.foldlM_cons]
    rcases List.mem_cons.mp hmem with rfl | hlater
    · rw [hraises]
      rfl
    · cases f s first with
      | none => rfl
      | some s' => exact ih hlater s'

/-- The event at which a longer and a shorter prompt part. -/
theorem simEvent_raises {policy : List ((MoeFamily × Int) × (K × Int))} {ids : List Int}
    {families : List MoeFamily} {k row : Nat} {weights : List K}
    (hne : k / ids.length ≠ row) (stats : List ((MoeFamily × Int) × DynskipStats)) :
    simEvent policy ids families stats (((k : Int) + 1, 1 + (row : Int)), weights) = none := by
  have hshift : (k : Int) + 1 - 1 = k := by omega
  unfold simEvent
  dsimp only
  rw [hshift, ← Int.natCast_ediv, if_pos]
  intro heq
  exact hne (by omega)

theorem simulate_otherLength {lines : List (PolicyLine K)} {prompt : List Int}
    (hn : 0 < prompt.length) {m : Nat} (hm : m ≠ prompt.length) {routes : List (List K)}
    (hlen : routes.length = 26 * m) (hroutes : ∀ weights ∈ routes, weights ≠ []) :
    simulate lines prompt (prefillTrace m routes) = none := by
  rcases Nat.eq_zero_or_pos m with rfl | hpos
  · have hnil : routes = [] := List.eq_nil_of_length_eq_zero (by omega)
    have htrace : simParseTrace (prefillTrace 0 routes) = none := by
      rw [hnil]
      unfold prefillTrace
      rw [List.zip_nil_right]
      rfl
    unfold simulate
    rw [htrace]
    split
    · rename_i h
      simp at h
    · rfl
  have hsome : prefillEvents m routes ≠ [] := by
    apply List.ne_nil_of_length_pos
    rw [prefillEvents_length hlen]
    omega
  have hraises : ∃ event ∈ prefillEvents m routes, ∀ policy families stats,
      simEvent policy prompt families stats event = none := by
    have hat : ∀ k < 26 * m, k / prompt.length ≠ k / m → ∃ event ∈ prefillEvents m routes,
        ∀ policy families stats, simEvent policy prompt families stats event = none := by
      intro k hk hne
      have hindex : k < (prefillEvents m routes).length := by
        rw [prefillEvents_length hlen]
        exact hk
      obtain ⟨hroute, hevent⟩ := prefillEvents_getElem hlen hindex
      refine ⟨_, List.getElem_mem hindex, fun policy families stats => ?_⟩
      rw [hevent]
      exact simEvent_raises hne stats
    rcases Nat.lt_or_gt_of_ne hm with hlt | hgt
    · apply hat m (by omega)
      rw [Nat.div_self hpos, Nat.div_eq_of_lt hlt]
      exact Nat.zero_ne_one
    · apply hat prompt.length (by omega)
      rw [Nat.div_self hn, Nat.div_eq_of_lt hgt]
      exact Nat.one_ne_zero
  obtain ⟨event, hmem, hevent⟩ := hraises
  unfold simulate
  rw [simParseTrace_prefill hroutes hsome]
  split
  · rename_i policy families events _ _ hevents
    obtain rfl := Option.some.inj hevents
    exact foldlM_raises hmem (hevent policy families) []
  · rfl

/-- What `runtime_init` makes of a policy that it loads. -/
theorem runtimeInit_policy {F D : Type*} {fl : RouterFloats F D} {env : DynskipEnv F}
    {g : Dynskip F} {path : Bytes} (hpath : envText env.policyPath = some path)
    (hinit : dynskipRuntimeInit fl env (initialDynskip fl) = (true, g)) :
    env.loadPolicy path = some g.policy ∧ g.policyEnabled = true := by
  unfold dynskipRuntimeInit at hinit
  have hfresh : ¬ (initialDynskip fl).runtimeState ≠ 0 := not_not.mpr rfl
  rw [if_neg hfresh, hpath] at hinit
  dsimp only at hinit
  split at hinit
  · cases hinit
  split at hinit
  · cases hinit
  rename_i table htable
  split at hinit
  · cases hinit
  split at hinit
  · cases hinit
  split at hinit
  · cases hinit
  cases hinit
  exact ⟨htable, rfl⟩

end Run

/-- On the trace of its own prompt the simulator counts what the runtime counts for every family
and layer, and it refuses the trace of a prompt of another length. -/
theorem simulate_mirrors_runtime {K : Type*} [Field K] [LinearOrder K] (fl : SkipFloats K K)
    {env : DynskipEnv K} {g : Dynskip K} {prompt : List Int} {path : Bytes}
    {lines : List (PolicyLine K)}
    (hinit : dynskipRuntimeInit (exactSkip fl).toRouterFloats env
      (initialDynskip (exactSkip fl).toRouterFloats) = (true, g))
    (hpath : envText env.policyPath = some path)
    (hload : env.loadPolicy path = kvlMoeDynskipLoadPolicy (exactSkip fl) lines)
    (hprompt : env.prompt = some prompt) (haccepted : (simLoadPolicy lines).isSome) (m : Nat)
    (routes : List (List K)) (hlen : routes.length = 26 * m)
    (hroutes : ∀ weights ∈ routes, Seen weights) :
    (m = prompt.length → ∃ run sim,
      runPrefill fl m routes ⟨g, fun _ _ => ⟨0, 0, 0⟩⟩ = some run ∧
      simulate lines prompt (prefillTrace m routes) = some sim ∧ SameStats run.stats sim) ∧
    (m ≠ prompt.length → simulate lines prompt (prefillTrace m routes) = none) := by
  obtain ⟨htable, hactive⟩ := runtimeInit_policy hpath hinit
  have hstart := runtimeInit_starts hinit hactive hprompt
  have hn : 0 < prompt.length := List.length_pos_iff.mpr hstart.nonempty
  have hnonempty : ∀ weights ∈ routes, weights ≠ [] := fun weights hw => (hroutes weights hw).1
  refine ⟨?_, fun hm => simulate_otherLength hn hm hlen hnonempty⟩
  rintro rfl
  obtain ⟨policy, hpolicy⟩ := Option.isSome_iff_exists.mp haccepted
  have hsame : SamePolicy g.policy policy := loadPolicy_same (hload.symm.trans htable) hpolicy
  have hsome : prefillEvents prompt.length routes ≠ [] := by
    apply List.ne_nil_of_length_pos
    rw [prefillEvents_length hlen]
    omega
  have hlength : ((prefillMoeCalls prompt.length).zip routes).length = 26 * prompt.length := by
    rw [List.length_zip, prefillMoeCalls_length, hlen, Nat.min_self]
  obtain ⟨stats, sim, hrun, hsim, hstats⟩ := @count_run K _ _ fl g prompt hstart policy hsame
    ((prefillMoeCalls prompt.length).zip routes) 0 (by omega) (fun i hi => by
      rw [List.getElem_zip]
      refine ⟨?_, hroutes _ (List.getElem_mem _)⟩
      rw [prefillMoeCalls_getElem, Nat.zero_add]) (fun _ _ => ⟨0, 0, 0⟩) [] fun _ _ => rfl
  rw [← hstart.start] at hrun
  refine ⟨_, sim, hrun, ?_, hstats⟩
  unfold simulate
  rw [hpolicy, simClassifyPrompt_eq hstart.nonempty, simParseTrace_prefill hnonempty hsome]
  exact hsim

/-- Rational arithmetic with a rough `exp`. -/
def ratSkipFloats : SkipFloats Rat Rat where
  zero := 0
  one := 1
  negInf := -1000000
  add := (· + ·)
  mul := (· * ·)
  div := (· / ·)
  neg := (- ·)
  exp a := 1 + a
  gt a b := a > b
  eq a b := a == b
  isFinite _ := true
  widen := id
  narrow := id
  addD := (· + ·)
  mulD := (· * ·)
  zeroD := 0
  tinyD := 0
  divD := (· / ·)
  gtD a b := a > b

/-- A policy that keeps half of the mass of content tokens in the first layer. -/
def halfPolicy : List (PolicyLine Rat) := [⟨"content", 1, 1 / 2, 1⟩]

/-- A user's prompt of three tokens under that policy. -/
def halfPolicyEnv : DynskipEnv Rat :=
  { policyPath := some [112]
    staticMask := none
    promptIds := some [105]
    loadPolicy := fun _ => kvlMoeDynskipLoadPolicy (exactSkip ratSkipFloats) halfPolicy
    readIds := fun _ => some [kimiImUserId, kimiImMiddleId, 7]
    mallocOk := true
    atexitOk := true }

theorem simulate_mirrors_runtime_three : ∃ g run sim,
    dynskipRuntimeInit (exactSkip ratSkipFloats).toRouterFloats halfPolicyEnv
      (initialDynskip (exactSkip ratSkipFloats).toRouterFloats) = (true, g) ∧
    runPrefill ratSkipFloats 3 (List.replicate 78 [1, 2, 1]) ⟨g, fun _ _ => ⟨0, 0, 0⟩⟩ =
      some run ∧
    simulate halfPolicy [kimiImUserId, kimiImMiddleId, 7]
      (prefillTrace 3 (List.replicate 78 [1, 2, 1])) = some sim ∧
    SameStats run.stats sim ∧
    simulate halfPolicy [kimiImUserId, kimiImMiddleId, 7]
      (prefillTrace 4 (List.replicate 104 [1, 2, 1])) = none := by
  have hinit : dynskipRuntimeInit (exactSkip ratSkipFloats).toRouterFloats halfPolicyEnv
      (initialDynskip (exactSkip ratSkipFloats).toRouterFloats) =
      (true, (dynskipRuntimeInit (exactSkip ratSkipFloats).toRouterFloats halfPolicyEnv
        (initialDynskip (exactSkip ratSkipFloats).toRouterFloats)).2) :=
    Prod.ext (by decide +kernel) rfl
  have hseen : ∀ n, ∀ weights ∈ List.replicate n [(1 : Rat), 2, 1], Seen weights := by
    intro n weights hw
    obtain rfl := List.eq_of_mem_replicate hw
    exact ⟨by decide, by decide, by decide +kernel⟩
  obtain ⟨run, sim, hrun, hsim, hstats⟩ := (simulate_mirrors_runtime ratSkipFloats hinit rfl rfl rfl
    (by decide +kernel) 3 (List.replicate 78 [1, 2, 1]) rfl (hseen 78)).1 rfl
  exact ⟨_, run, sim, hinit, hrun, hsim, hstats,
    (simulate_mirrors_runtime ratSkipFloats hinit rfl rfl rfl (by decide +kernel) 4
      (List.replicate 104 [1, 2, 1]) rfl (hseen 104)).2 (by decide)⟩

end Kvl

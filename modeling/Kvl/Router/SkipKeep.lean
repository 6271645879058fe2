import Kvl.Lib.Ranking
import Kvl.Router.SkipSim

/-!
# The keep set

What `kvl_moe_dynskip_apply_policy` keeps, in exact arithmetic: the experts that
come first by their normalised weight, as many as reach the threshold, and at
least as many as the policy wants.
-/

namespace Kvl

set_option autoImplicit false

open TopK

section Masks
variable {K : Type*} [Field K] [LinearOrder K] {fl : SkipFloats K K}

def weightAt (ws : List K) (i : Nat) : K := ws.getD i 0

def kept (keep : List Bool) (i : Nat) : Prop := keep.getD i false = true

instance (keep : List Bool) (i : Nat) : Decidable (kept keep i) := by
  unfold kept
  infer_instance

/-- A mask that keeps the experts that come first. -/
structure FirstKept (mass : List K) (keep : List Bool) : Prop where
  length : keep.length = mass.length
  first : ∀ i j, j < mass.length → kept keep i → ¬ kept keep j → Ahead (weightAt mass) i j

def keptSet (keep : List Bool) : Finset Nat := (Finset.range keep.length).filter (kept keep)

theorem mem_keptSet {keep : List Bool} {i : Nat} : i ∈ keptSet keep ↔ kept keep i := by
  unfold keptSet
  rw [Finset.mem_filter, Finset.mem_range, and_iff_right_iff_imp]
  intro h
  unfold kept at h
  by_contra hge
  rw [List.getD_eq_default _ _ (Nat.not_lt.mp hge)] at h
  cases h

theorem card_keptSet (keep : List Bool) : (keptSet keep).card = keep.count true := by
  have hrange : (List.range keep.length).map (fun i => keep.getD i false) = keep := by
    apply List.ext_getElem
    · rw [List.length_map, List.length_range]
    · intro i h1 h2
      rw [List.getElem_map, List.getElem_range, List.getD_eq_getElem _ _ h2]
  have hcount : keep.count true =
      ((List.range keep.length).filter fun i => decide (kept keep i)).length := by
    conv_lhs => rw [← hrange]
    rw [List.count_eq_countP, List.countP_map, List.countP_eq_length_filter]
    congr 1
  rw [hcount]
  rfl

/-- Of two such masks the one that keeps fewer is contained in the other. -/
theorem FirstKept.subset {mass : List K} {keep keep' : List Bool} (h : FirstKept mass keep)
    (h' : FirstKept mass keep') (hcount : keep'.count true ≤ keep.count true) :
    ∀ i, kept keep' i → kept keep i := by
  intro i hi
  by_contra hno
  have hlt : i < mass.length := by
    rw [← h'.length]
    exact Finset.mem_range.mp (Finset.mem_filter.mp (mem_keptSet.mpr hi)).1
  have hsub : keptSet keep ⊂ keptSet keep' := by
    refine Finset.ssubset_iff_subset_ne.mpr ⟨fun j hj => ?_, ?_⟩
    · have hj' := mem_keptSet.mp hj
      by_contra hout
      have hlt' : j < mass.length := by
        rw [← h.length]
        exact Finset.mem_range.mp (Finset.mem_filter.mp hj).1
      have hij := h'.first i j hlt' hi fun hkept => hout (mem_keptSet.mpr hkept)
      exact Ahead.irrefl _ _ (hij.trans (h.first j i hlt hj' hno))
    · intro heq
      exact hno (mem_keptSet.mp (heq ▸ mem_keptSet.mpr hi))
  have hcard := Finset.card_lt_card hsub
  rw [card_keptSet, card_keptSet] at hcard
  omega

theorem kept_set {keep : List Bool} {b : Nat} (hb : b < keep.length) (i : Nat) :
    kept (keep.set b true) i ↔ i = b ∨ kept keep i := by
  unfold kept
  by_cases hib : i = b
  · subst hib
    rw [List.getD_eq_getElem _ _ (by rwa [List.length_set]), List.getElem_set_self]
    exact iff_of_true rfl (.inl rfl)
  · rw [List.getD_eq_getElem?_getD, List.getElem?_set_ne (Ne.symm hib),
      ← List.getD_eq_getElem?_getD]
    exact ⟨.inr, fun h => h.resolve_left hib⟩

variable (fl) in
/-- The expert that is restored is ahead of all others that are not kept. -/
theorem bestUnkept_first {mass : List K} {keep : List Bool} (hlen : keep.length = mass.length)
    (hmore : keep.count true < keep.length) :
    ∃ b, bestUnkept (exactSkip fl) mass keep = some b ∧
      ∀ j < keep.length, ¬ kept keep j → j ≠ b → Ahead (weightAt mass) b j := by
  have hmem : ∀ j < keep.length, ¬ kept keep j →
      j ∈ (List.range keep.length).filter fun i => !keep.getD i true := by
    intro j hj hno
    rw [List.mem_filter, List.mem_range]
    refine ⟨hj, ?_⟩
    unfold kept at hno
    rw [List.getD_eq_getElem _ _ hj] at hno ⊢
    simpa using hno
  obtain ⟨j, hj, hno⟩ : ∃ j < keep.length, ¬ kept keep j := by
    by_contra hall
    push Not at hall
    have hsub : Finset.range keep.length ⊆ keptSet keep := fun j hj =>
      mem_keptSet.mpr (hall j (Finset.mem_range.mp hj))
    have hcard := Finset.card_le_card hsub
    rw [Finset.card_range, card_keptSet] at hcard
    omega
  have hne := hmem j hj hno
  have hsorted : ((List.range keep.length).filter fun i => !keep.getD i true).Pairwise (· < ·) :=
    List.pairwise_lt_range.filter _
  rw [bestUnkept_eq hlen]
  unfold simBest
  cases hlist : (List.range keep.length).filter fun i => !keep.getD i true with
  | nil =>
    rw [hlist] at hne
    cases hne
  | cons i candidates =>
    rw [hlist] at hsorted
    obtain ⟨-, hall⟩ := foldl_ahead (weightAt mass) hsorted
    exact ⟨_, rfl, fun j hj hno hjb => hall j (hlist ▸ hmem j hj hno) hjb⟩

theorem FirstKept.set {mass : List K} {keep : List Bool} (h : FirstKept mass keep) {b : Nat}
    (hb : b < keep.length) (hbest : ∀ j < keep.length, ¬ kept keep j → j ≠ b →
      Ahead (weightAt mass) b j) : FirstKept mass (keep.set b true) where
  length := by rw [List.length_set, h.length]
  first i j hj hi hno := by
    rw [kept_set hb] at hi hno
    obtain ⟨hjb, hnew⟩ := not_or.mp hno
    rcases hi with hib | hi
    · rw [hib]
      exact hbest j (h.length ▸ hj) hnew hjb
    · exact h.first i j hj hi hnew

variable (fl) in
/-- The loop that restores experts keeps the order, and restores as many as it is asked for. -/
theorem FirstKept.keepMore {mass : List K} {keep : List Bool} (h : FirstKept mass keep) {n : Nat}
    (hn : keep.count true + n ≤ mass.length) :
    FirstKept mass (Kvl.keepMore (exactSkip fl) mass n keep) ∧
      (Kvl.keepMore (exactSkip fl) mass n keep).count true = keep.count true + n ∧
      ∀ i, kept keep i → kept (Kvl.keepMore (exactSkip fl) mass n keep) i := by
  induction n generalizing keep with
  | zero => exact ⟨h, rfl, fun _ hi => hi⟩
  | succ n ih =>
    have hmore : keep.count true < keep.length := by
      rw [h.length]
      omega
    obtain ⟨b, hb, hbest⟩ := bestUnkept_first fl h.length hmore
    have hsim := hb
    rw [bestUnkept_eq h.length] at hsim
    obtain ⟨hlt, hfalse⟩ := simBest_unkept hsim
    have hcount := count_set_unkept hlt hfalse
    obtain ⟨hfirst, hsize, hsub⟩ := ih (h.set hlt hbest) (by omega)
    rw [Kvl.keepMore, hb]
    refine ⟨hfirst, hsize.trans (by omega), fun i hi => hsub i ?_⟩
    exact (kept_set hlt i).mpr (.inr hi)

end Masks

section Policy
variable {K : Type*} [Field K] [LinearOrder K] {fl : SkipFloats K K}

/-- The normalised weights. -/
def normalised (ws : List K) : List K := ws.map (· / ws.sum)

/-- A call that the policy of its family and layer decides. -/
structure PolicyCall (table : MoeFamily → Nat → DynskipPolicy K) (family : MoeFamily) (layer : Int)
    (ws : List K) (threshold : K) (minKeep : Int) : Prop where
  entry : table family layer.toNat = ⟨threshold, minKeep⟩
  decides : family = .content ∨ family = .media
  inTable : 0 ≤ layer ∧ layer < dynskipMaxLayers
  routed : 0 < (ws.length : Int) ∧ (ws.length : Int) ≤ dynskipMaxTopk
  nonneg : ∀ w ∈ ws, 0 ≤ w
  positive : 0 < ws.sum
  active : 0 < threshold
  keepsOne : 1 ≤ minKeep

/-- The keep set of a route. -/
structure KeepSet (ws : List K) (threshold : K) (minKeep : Int) (keep : List Bool)
    (skipped : Int) : Prop where
  length : keep.length = ws.length
  enough : min minKeep ws.length ≤ (keep.count true : Int)
  heavy : ∀ i < ws.length, threshold ≤ weightAt ws i / ws.sum → kept keep i
  lightest : ∀ i j, i < ws.length → j < ws.length → kept keep i → ¬ kept keep j →
    weightAt ws j ≤ weightAt ws i
  size : (keep.count true : Int) =
    max ((ws.filter fun w => threshold ≤ w / ws.sum).length : Int) (min minKeep ws.length)
  skipped : skipped = (ws.length : Int) - keep.count true

omit [LinearOrder K] in
theorem weightAt_normalised (ws : List K) (i : Nat) :
    weightAt (normalised ws) i = weightAt ws i / ws.sum := by
  unfold weightAt normalised
  rw [List.getD_eq_getElem?_getD, List.getD_eq_getElem?_getD, List.getElem?_map]
  cases ws[i]? with
  | none => simp
  | some w => rfl

theorem kept_thresholdMask {mass : List K} {threshold : K} {i : Nat} (hi : i < mass.length) :
    kept (thresholdMask mass threshold) i ↔ threshold ≤ weightAt mass i := by
  unfold kept thresholdMask weightAt
  rw [List.getD_eq_getElem _ _ (by rwa [List.length_map]), List.getElem_map,
    List.getD_eq_getElem _ _ hi, decide_eq_true_iff]

theorem thresholdMask_first (mass : List K) (threshold : K) :
    FirstKept mass (thresholdMask mass threshold) where
  length := List.length_map _
  first i j hj hi hno := by
    have hlt : i < mass.length := by
      have hmem := Finset.mem_range.mp (Finset.mem_filter.mp (mem_keptSet.mpr hi)).1
      rwa [thresholdMask, List.length_map] at hmem
    rw [kept_thresholdMask hlt] at hi
    rw [kept_thresholdMask hj, not_le] at hno
    exact .inl (hno.trans_le hi)

omit [Field K] in
theorem count_thresholdMask (mass : List K) (threshold : K) :
    (thresholdMask mass threshold).count true = (mass.filter fun m => threshold ≤ m).length := by
  unfold thresholdMask
  rw [List.count_eq_countP, List.countP_map, List.countP_eq_length_filter]
  congr 1
  apply List.filter_congr
  intro m _
  simp

/-- The number of experts that a policy keeps. -/
def keptCount (mass : List K) (threshold : K) (minKeep : Int) : Nat :=
  max (mass.filter fun m => threshold ≤ m).length (min minKeep mass.length).toNat

variable (fl) in
/-- What a deciding call returns. -/
theorem applyPolicy_mask {table : MoeFamily → Nat → DynskipPolicy K} {family : MoeFamily}
    {layer : Int} {ws : List K} {threshold : K} {minKeep : Int}
    (h : PolicyCall table family layer ws threshold minKeep) :
    ∃ keep, kvlMoeDynskipApplyPolicy (exactSkip fl) table family layer ws =
        some ⟨true, keep, (ws.length : Int) - keep.count true⟩ ∧
      FirstKept (normalised ws) keep ∧
      keep.count true = keptCount (normalised ws) threshold minKeep ∧
      ∀ i < ws.length, threshold ≤ weightAt ws i / ws.sum → kept keep i := by
  obtain ⟨keep, hkeep, hmore⟩ := @keepByMass_active K _ _ fl ⟨threshold, minKeep⟩ ws h.nonneg
    h.active h.positive
  have hmask := thresholdMask_first (normalised ws) threshold
  have hcount := count_thresholdMask (normalised ws) threshold
  have hle : (thresholdMask (normalised ws) threshold).count true ≤ (normalised ws).length := by
    rw [← hmask.length]
    exact List.count_le_length
  have hlen : (normalised ws).length = ws.length := List.length_map _
  have hone := h.keepsOne
  rw [max_eq_left hone] at hmore
  obtain ⟨hfirst, hsize, hsub⟩ := hmask.keepMore fl
    (n := (min minKeep ws.length - (thresholdMask (normalised ws) threshold).count true).toNat)
    (by omega)
  change keep = Kvl.keepMore (exactSkip fl) (normalised ws) (min minKeep ws.length -
    (thresholdMask (normalised ws) threshold).count true).toNat
    (thresholdMask (normalised ws) threshold) at hmore
  rw [← hmore] at hfirst hsize hsub
  refine ⟨keep, ?_, hfirst, ?_, fun i hi hheavy => hsub i ?_⟩
  · unfold kvlMoeDynskipApplyPolicy
    dsimp only
    obtain ⟨hlow, hhigh⟩ := h.inTable
    obtain ⟨hpos, hmax⟩ := h.routed
    rw [if_neg (by omega), if_neg ?_, h.entry, hkeep]
    rintro ⟨hcontent, hmedia⟩
    exact h.decides.elim hcontent hmedia
  · unfold keptCount
    rw [hsize, ← hcount, hlen]
    omega
  · rw [kept_thresholdMask (by rwa [hlen]), weightAt_normalised]
    exact hheavy

theorem keptCount_normalised (ws : List K) (threshold : K) {minKeep : Int} (h : 1 ≤ minKeep) :
    (keptCount (normalised ws) threshold minKeep : Int) =
      max ((ws.filter fun w => threshold ≤ w / ws.sum).length : Int) (min minKeep ws.length) := by
  have hlen : (normalised ws).length = ws.length := List.length_map _
  have hfilter : ((normalised ws).filter fun m => threshold ≤ m).length =
      (ws.filter fun w => threshold ≤ w / ws.sum).length := by
    unfold normalised
    rw [List.filter_map, List.length_map]
    rfl
  unfold keptCount
  rw [hfilter, hlen]
  omega

omit [Field K] in
/-- A higher threshold keeps no more experts. -/
theorem keptCount_anti (mass : List K) {threshold threshold' : K} (h : threshold ≤ threshold')
    (minKeep : Int) : keptCount mass threshold' minKeep ≤ keptCount mass threshold minKeep := by
  have hle : (mass.filter fun m => threshold' ≤ m).length ≤
      (mass.filter fun m => threshold ≤ m).length := by
    rw [← List.countP_eq_length_filter, ← List.countP_eq_length_filter]
    apply List.countP_mono_left
    intro m _ hm
    exact decide_eq_true (h.trans (of_decide_eq_true hm))
  unfold keptCount
  omega

theorem applyPolicy_anti {table table' : MoeFamily → Nat → DynskipPolicy K} {family : MoeFamily}
    {layer : Int} {ws : List K} {threshold threshold' : K} {minKeep : Int}
    (h : PolicyCall table family layer ws threshold minKeep)
    (h' : PolicyCall table' family layer ws threshold' minKeep) (hle : threshold ≤ threshold')
    {result result' : SkipResult}
    (hresult : kvlMoeDynskipApplyPolicy (exactSkip fl) table family layer ws = some result)
    (hresult' : kvlMoeDynskipApplyPolicy (exactSkip fl) table' family layer ws = some result')
    (i : Nat) (hi : kept result'.keep i) : kept result.keep i := by
  obtain ⟨keep, hcall, hfirst, hcount, -⟩ := applyPolicy_mask fl h
  obtain ⟨keep', hcall', hfirst', hcount', -⟩ := applyPolicy_mask fl h'
  obtain rfl := Option.some.inj (hresult.symm.trans hcall)
  obtain rfl := Option.some.inj (hresult'.symm.trans hcall')
  refine hfirst.subset hfirst' ?_ i hi
  rw [hcount, hcount']
  exact keptCount_anti _ hle minKeep

section Ordered
variable [IsStrictOrderedRing K]

variable (fl) in
theorem applyPolicy_keepSet {table : MoeFamily → Nat → DynskipPolicy K} {family : MoeFamily}
    {layer : Int} {ws : List K} {threshold : K} {minKeep : Int}
    (h : PolicyCall table family layer ws threshold minKeep) :
    ∃ keep skipped, kvlMoeDynskipApplyPolicy (exactSkip fl) table family layer ws =
        some ⟨true, keep, skipped⟩ ∧ KeepSet ws threshold minKeep keep skipped := by
  obtain ⟨keep, hcall, hfirst, hcount, hheavy⟩ := applyPolicy_mask fl h
  have hlen : (normalised ws).length = ws.length := List.length_map _
  have hsize := keptCount_normalised ws threshold h.keepsOne
  rw [← hcount] at hsize
  refine ⟨keep, _, hcall, ?_, ?_, hheavy, ?_, hsize, rfl⟩
  · rw [hfirst.length, hlen]
  · rw [hsize]
    exact le_max_right _ _
  · intro i j _ hj hi hno
    have hle := (hfirst.first i j (by rwa [hlen]) hi hno).le
    rw [weightAt_normalised, weightAt_normalised] at hle
    exact (div_le_div_iff_of_pos_right h.positive).mp hle

/-- One positive factor on all weights changes no decision. -/
theorem applyPolicy_scale (table : MoeFamily → Nat → DynskipPolicy K) (family : MoeFamily)
    (layer : Int) (ws : List K) {c : K} (hc : 0 < c) :
    kvlMoeDynskipApplyPolicy (exactSkip fl) table family layer (ws.map (c * ·)) =
      kvlMoeDynskipApplyPolicy (exactSkip fl) table family layer ws := by
  have hsum : (ws.map (c * ·)).sum = c * ws.sum := by
    simpa using List.sum_map_mul_left ws id c
  have hvalid : ((ws.map (c * ·)).any fun w => !(exactSkip fl).isFinite w ||
      (exactSkip fl).gt (exactSkip fl).zero w) =
      ws.any fun w => !(exactSkip fl).isFinite w || (exactSkip fl).gt (exactSkip fl).zero w := by
    rw [List.any_map]
    congr 1
    funext w
    change (!true || decide (c * w < 0)) = (!true || decide (w < 0))
    have hneg : c * w < 0 ↔ w < 0 := by
      rw [← not_le, ← not_le, mul_nonneg_iff_of_pos_left hc]
    simp only [hneg]
  have hpositive : (!(exactSkip fl).gtD (c * ws.sum) (exactSkip fl).zeroD) =
      !(exactSkip fl).gtD ws.sum (exactSkip fl).zeroD := by
    change (!decide (0 < c * ws.sum)) = !decide (0 < ws.sum)
    simp only [mul_pos_iff_of_pos_left hc]
  have hmass : (ws.map (c * ·)).map (fun w => (exactSkip fl).narrow ((exactSkip fl).divD
      ((exactSkip fl).widen w) (c * ws.sum))) = ws.map fun w => (exactSkip fl).narrow
        ((exactSkip fl).divD ((exactSkip fl).widen w) ws.sum) := by
    rw [List.map_map]
    apply List.map_congr_left
    intro w _
    exact mul_div_mul_left w ws.sum hc.ne'
  unfold kvlMoeDynskipApplyPolicy keepByMass
  dsimp only
  rw [sum_eq_foldl, sum_eq_foldl, hsum, hvalid, hpositive, hmass, List.length_map]

end Ordered

end Policy

section Rejected
variable {F D : Type*} (fl : SkipFloats F D)

/-- A weight that the policy rejects. -/
def badWeight (w : F) : Bool := !fl.isFinite w || fl.gt fl.zero w

/-- A rejected route keeps all its experts, and a policy that is on rejects it. -/
theorem applyPolicy_bad {table : MoeFamily → Nat → DynskipPolicy F} {family : MoeFamily}
    {layer : Int} {ws : List F} (hbad : ∃ w ∈ ws, badWeight fl w = true) {result : SkipResult}
    (hresult : kvlMoeDynskipApplyPolicy fl table family layer ws = some result) :
    result.keep = List.replicate ws.length true ∧ result.skipped = 0 ∧
      (result.ok = false ↔ (family = .content ∨ family = .media) ∧
        ¬ (fl.gt fl.zero (table family layer.toNat).threshold ||
          fl.eq (table family layer.toNat).threshold fl.zero) = true) := by
  have hany : (ws.any fun w => !fl.isFinite w || fl.gt fl.zero w) = true :=
    List.any_eq_true.mpr hbad
  unfold kvlMoeDynskipApplyPolicy at hresult
  dsimp only at hresult
  split at hresult
  · cases hresult
  split at hresult
  · rename_i hcontrol
    obtain rfl := Option.some.inj hresult
    refine ⟨rfl, rfl, iff_of_false Bool.false_ne_true.symm ?_⟩
    rintro ⟨hfamily, -⟩
    exact hfamily.elim hcontrol.1 hcontrol.2
  · rename_i hfamily
    obtain rfl := Option.some.inj hresult
    have hdecides : family = .content ∨ family = .media := by
      by_contra hno
      exact hfamily (not_or.mp hno)
    by_cases hoff : (fl.gt fl.zero (table family layer.toNat).threshold ||
        fl.eq (table family layer.toNat).threshold fl.zero) = true
    · have hkeep : keepByMass fl (table family layer.toNat) ws =
          ⟨true, List.replicate ws.length true, 0⟩ := if_pos hoff
      rw [hkeep]
      exact ⟨rfl, rfl, iff_of_false Bool.false_ne_true.symm fun h => h.2 hoff⟩
    · have hkeep : keepByMass fl (table family layer.toNat) ws =
          ⟨false, List.replicate ws.length true, 0⟩ := (if_neg hoff).trans (if_pos hany)
      rw [hkeep]
      exact ⟨rfl, rfl, iff_of_true rfl ⟨hdecides, hoff⟩⟩

end Rejected

/-- The keep set of a deciding call in exact arithmetic, and the mask of a rejected call in
any arithmetic. -/
theorem applyPolicy_keeps {K F D : Type*} [Field K] [LinearOrder K] [IsStrictOrderedRing K]
    (fl : SkipFloats K K) (fl' : SkipFloats F D) :
    (∀ table family layer ws (threshold : K) minKeep,
      PolicyCall table family layer ws threshold minKeep →
      ∃ keep skipped, kvlMoeDynskipApplyPolicy (exactSkip fl) table family layer ws =
          some ⟨true, keep, skipped⟩ ∧
        KeepSet ws threshold minKeep keep skipped ∧
        (∀ c, 0 < c → kvlMoeDynskipApplyPolicy (exactSkip fl) table family layer
          (ws.map (c * ·)) = some ⟨true, keep, skipped⟩) ∧
        ∀ table' threshold', PolicyCall table' family layer ws threshold' minKeep →
          threshold ≤ threshold' → ∃ keep' skipped',
            kvlMoeDynskipApplyPolicy (exactSkip fl) table' family layer ws =
              some ⟨true, keep', skipped'⟩ ∧
            ∀ i, kept keep' i → kept keep i) ∧
    ∀ table family layer ws, (∃ w ∈ ws, badWeight fl' w = true) → ∀ result,
      kvlMoeDynskipApplyPolicy fl' table family layer ws = some result →
      result.keep = List.replicate ws.length true ∧ result.skipped = 0 ∧
        (result.ok = false ↔ (family = .content ∨ family = .media) ∧
          ¬ (fl'.gt fl'.zero (table family layer.toNat).threshold ||
            fl'.eq (table family layer.toNat).threshold fl'.zero) = true) := by
  refine ⟨fun table family layer ws threshold minKeep h => ?_,
    fun table family layer ws hbad result => applyPolicy_bad fl' hbad⟩
  obtain ⟨keep, skipped, hcall, hkeep⟩ := applyPolicy_keepSet fl h
  refine ⟨keep, skipped, hcall, hkeep, fun c hc => ?_, fun table' threshold' h' hle => ?_⟩
  · rw [applyPolicy_scale table family layer ws hc, hcall]
  · obtain ⟨keep', skipped', hcall', -⟩ := applyPolicy_keepSet fl h'
    exact ⟨keep', skipped', hcall', applyPolicy_anti h h' hle hcall hcall'⟩

theorem thirdCall (threshold : Rat) (h : 0 < threshold) :
    PolicyCall (fun _ _ => ⟨threshold, 2⟩) .media 3 [2, 1, 1] threshold 2 :=
  ⟨rfl, .inr rfl, by decide, by decide, by decide, by decide +kernel, h, by decide⟩

/-- A route of three experts at the thresholds a half and one, and one with a negative weight. -/
theorem applyPolicy_keeps_third :
    (∃ keep skipped, kvlMoeDynskipApplyPolicy (exactSkip ratSkipFloats) (fun _ _ => ⟨1 / 2, 2⟩)
        .media 3 [2, 1, 1] = some ⟨true, keep, skipped⟩ ∧
      KeepSet [2, 1, 1] (1 / 2 : Rat) 2 keep skipped ∧
      kvlMoeDynskipApplyPolicy (exactSkip ratSkipFloats) (fun _ _ => ⟨1 / 2, 2⟩) .media 3
        ([2, 1, 1].map (7 * ·)) = some ⟨true, keep, skipped⟩ ∧
      ∃ keep' skipped', kvlMoeDynskipApplyPolicy (exactSkip ratSkipFloats) (fun _ _ => ⟨1, 2⟩)
          .media 3 [2, 1, 1] = some ⟨true, keep', skipped'⟩ ∧
        ∀ i, kept keep' i → kept keep i) ∧
    (∀ result, kvlMoeDynskipApplyPolicy ratSkipFloats (fun _ _ => ⟨1 / 2, 2⟩) .media 3
        [2, -1, 1] = some result →
      result.keep = List.replicate 3 true ∧ result.skipped = 0) := by
  obtain ⟨hkeep, hbad⟩ := applyPolicy_keeps ratSkipFloats ratSkipFloats
  obtain ⟨keep, skipped, hcall, hset, hscale, hanti⟩ := hkeep (fun _ _ => ⟨1 / 2, 2⟩) .media 3
    [2, 1, 1] (1 / 2) 2 (thirdCall (1 / 2) (by decide +kernel))
  refine ⟨⟨keep, skipped, hcall, hset, hscale 7 (by decide +kernel),
    hanti _ 1 (thirdCall 1 (by decide +kernel)) (by decide +kernel)⟩, fun result hresult => ?_⟩
  obtain ⟨hmask, hskipped, -⟩ := hbad (fun _ _ => ⟨1 / 2, 2⟩) .media 3 [2, -1, 1]
    ⟨-1, by decide, by decide +kernel⟩ result hresult
  exact ⟨hmask, hskipped⟩

end Kvl

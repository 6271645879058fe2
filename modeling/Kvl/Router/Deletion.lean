import Kvl.Router.Exact

/-!
# Masking experts and deleting them

With one group, the masked router does what the unmasked one does on a model
whose matrix and biases lack the rows of the disabled experts. With any groups
and nothing disabled, it does what the unmasked one does on the same model.
-/

namespace Kvl

set_option autoImplicit false

open TopK

section Deletion
variable {F D : Type*} {fl : RouterFloats F D} {cfg : RouterConfig F} {disabled : Nat → Bool}

def enabledExperts {F : Type*} (cfg : RouterConfig F) (disabled : Nat → Bool) : List Nat :=
  (List.range cfg.nExperts.toNat).filter fun e => !disabled e

/-- The model without the disabled experts. -/
def withoutExperts (cfg : RouterConfig F) (disabled : Nat → Bool) : RouterConfig F :=
  { cfg with nExperts := ((enabledExperts cfg disabled).length : Int) }

/-- The old id of the `i`-th expert that is left. -/
def oldId {F : Type*} (cfg : RouterConfig F) (disabled : Nat → Bool) (i : Nat) : Nat :=
  (enabledExperts cfg disabled).getD i 0

/-- The router matrix without the rows of the disabled experts. -/
def withoutRows (cfg : RouterConfig F) (disabled : Nat → Bool) (w : Nat → F) (k : Nat) : F :=
  w (oldId cfg disabled (k / cfg.hiddenSize.toNat) * cfg.hiddenSize.toNat +
    k % cfg.hiddenSize.toNat)

theorem oldId_eq {i : Nat} (hi : i < (enabledExperts cfg disabled).length) :
    oldId cfg disabled i = (enabledExperts cfg disabled)[i] := by
  unfold oldId
  rw [List.getD_eq_getElem _ _ hi]

theorem map_oldId (cfg : RouterConfig F) (disabled : Nat → Bool) :
    (List.range (enabledExperts cfg disabled).length).map (oldId cfg disabled) =
      enabledExperts cfg disabled := by
  apply List.ext_getElem
  · simp
  · intro i h _
    rw [List.getElem_map, List.getElem_range]
    exact oldId_eq (by simpa using h)

/-- Renaming keeps the order of the ids. -/
theorem oldId_lt_iff {a b : Nat} (ha : a < (enabledExperts cfg disabled).length)
    (hb : b < (enabledExperts cfg disabled).length) :
    oldId cfg disabled a < oldId cfg disabled b ↔ a < b := by
  have hsorted : (enabledExperts cfg disabled).Pairwise (· < ·) :=
    List.pairwise_lt_range.sublist List.filter_sublist
  have hmono := List.pairwise_iff_getElem.mp hsorted
  rw [oldId_eq ha, oldId_eq hb]
  constructor
  · intro hlt
    by_contra hge
    rcases Nat.eq_or_lt_of_not_lt hge with heq | hgt
    · subst heq
      exact lt_irrefl _ hlt
    · exact absurd (hmono b a hb ha hgt) (by omega)
  · exact hmono a b ha hb

theorem expertScore_withoutRows (hH : 0 < cfg.hiddenSize) (x w : Nat → F) (e : Nat) :
    expertScore fl (withoutExperts cfg disabled) x (withoutRows cfg disabled w) e =
      expertScore fl cfg x w (oldId cfg disabled e) := by
  have hpos : 0 < cfg.hiddenSize.toNat := Int.lt_toNat.mpr hH
  have hcell : ∀ i ∈ List.range cfg.hiddenSize.toNat,
      withoutRows cfg disabled w (e * cfg.hiddenSize.toNat + i) =
        w (oldId cfg disabled e * cfg.hiddenSize.toNat + i) := by
    intro i hi
    have hlt := List.mem_range.mp hi
    have hdiv : (e * cfg.hiddenSize.toNat + i) / cfg.hiddenSize.toNat = e := by
      rw [Nat.add_comm, Nat.add_mul_div_right _ _ hpos, Nat.div_eq_of_lt hlt, Nat.zero_add]
    have hmod : (e * cfg.hiddenSize.toNat + i) % cfg.hiddenSize.toNat = i := by
      rw [Nat.add_comm, Nat.add_mul_mod_self_right, Nat.mod_eq_of_lt hlt]
    unfold withoutRows
    rw [hdiv, hmod]
  have hfold : (List.range cfg.hiddenSize.toNat).foldl (fun z i => fl.addD z (fl.mulD
        (fl.widen (withoutRows cfg disabled w (e * cfg.hiddenSize.toNat + i)))
        (fl.widen (x i)))) fl.zeroD =
      (List.range cfg.hiddenSize.toNat).foldl (fun z i => fl.addD z (fl.mulD
        (fl.widen (w (oldId cfg disabled e * cfg.hiddenSize.toNat + i)))
        (fl.widen (x i)))) fl.zeroD := by
    apply List.foldl_ext
    intro z i hi
    rw [hcell i hi]
  exact congrArg (fun z => fl.div fl.one (fl.add fl.one (fl.exp (fl.neg (fl.narrow z))))) hfold

theorem routeWeights_withoutRows (hH : 0 < cfg.hiddenSize) (x w : Nat → F) (ids : List Nat) :
    routeWeights fl (withoutExperts cfg disabled) x (withoutRows cfg disabled w) ids =
      routeWeights fl cfg x w (ids.map (oldId cfg disabled)) := by
  have hraw : ids.map (expertScore fl (withoutExperts cfg disabled) x
      (withoutRows cfg disabled w)) =
      (ids.map (oldId cfg disabled)).map (expertScore fl cfg x w) := by
    rw [List.map_map]
    exact List.map_congr_left fun e _ => expertScore_withoutRows hH x w e
  unfold routeWeights
  rw [hraw]
  rfl

/-- One group is always kept. -/
theorem bestGroups_single {cfg : RouterConfig F} (hgroups : cfg.nGroup = 1)
    (htopk : cfg.topkGroup = 1) (score : Nat → F) :
    bestGroups fl cfg score = [some ⟨score 0, 0⟩] := by
  unfold bestGroups
  rw [hgroups, htopk]
  rfl

theorem takenIds_insertAll (v : Nat → F) {k : Nat} {xs : List Nat} (hk : k ≤ xs.length) :
    takenIds (insertAll (q8Better fl) (List.replicate k none)
      (xs.map fun e => (⟨v e, e⟩ : Choice F))) =
      some ((sortBy (fun a b => q8Better fl ⟨v a, a⟩ ⟨v b, b⟩) xs).take k) := by
  have hids : ∀ ids : List Nat,
      takenIds ((ids.map fun e => (⟨v e, e⟩ : Choice F)).map some) = some ids := by
    intro ids
    induction ids with
    | nil => rfl
    | cons e ids ih =>
      rw [List.map_cons, List.map_cons, takenIds, ih]
      rfl
  rw [insertAll_map_free (q8Better fl) _ hk, hids]

/-- Selecting among the experts that are left, under their old ids or their new ones. -/
theorem sortBy_oldId (v : Nat → F) :
    sortBy (fun a b => q8Better fl ⟨v a, a⟩ ⟨v b, b⟩) (enabledExperts cfg disabled) =
      (sortBy (fun a b => q8Better fl ⟨v (oldId cfg disabled a), a⟩
        ⟨v (oldId cfg disabled b), b⟩)
        (List.range (enabledExperts cfg disabled).length)).map (oldId cfg disabled) := by
  conv_lhs => rw [← map_oldId cfg disabled]
  refine (sortBy_map _ _ (oldId cfg disabled) _ ?_).symm
  intro a ha b hb
  have hlt := @oldId_lt_iff F cfg disabled a b (List.mem_range.mp ha) (List.mem_range.mp hb)
  simp only [q8Better, hlt]

/-- With one group that is kept, every listed expert competes with its own value. -/
theorem bestExperts_single {cfg : RouterConfig F} {keep : Nat → Bool} (hkeep : keep 0 = true)
    {experts : List Nat} (hlt : ∀ e ∈ experts, e < perGroup cfg) (choice : Nat → F) :
    bestExperts fl cfg keep choice experts = insertAll (q8Better fl)
      (List.replicate cfg.topK.toNat none) (experts.map fun e => ⟨choice e, e⟩) := by
  have hvalue : ∀ e ∈ experts, (⟨if keep (e / perGroup cfg) then choice e else fl.zero, e⟩ :
      Choice F) = ⟨choice e, e⟩ := by
    intro e he
    rw [Nat.div_eq_of_lt (hlt e he), if_pos hkeep]
  unfold bestExperts
  rw [List.map_congr_left hvalue]

theorem perGroup_single {cfg : RouterConfig F} (hgroups : cfg.nGroup = 1) :
    perGroup cfg = cfg.nExperts.toNat := by
  unfold perGroup
  rw [hgroups, Int.ediv_one]

/-- What the masked router selects over one group. -/
theorem takenIds_masked (hok : cfg.Ok) (hgroups : cfg.nGroup = 1) (x w bias : Nat → F)
    (hfinite : fl.isFinite
      (maskedGroupScore fl cfg disabled (choiceScore fl cfg x w bias) 0) = true)
    (henough : cfg.topK.toNat ≤ (enabledExperts cfg disabled).length) :
    takenIds (bestExperts fl cfg (fun g =>
        (bestGroups fl cfg (maskedGroupScore fl cfg disabled (choiceScore fl cfg x w bias))).any
          fun place => place.any fun c => c.id == g && fl.isFinite c.score)
        (choiceScore fl cfg x w bias) (enabledExperts cfg disabled)) =
      some ((sortBy (fun a b => q8Better fl ⟨choiceScore fl cfg x w bias a, a⟩
        ⟨choiceScore fl cfg x w bias b, b⟩) (enabledExperts cfg disabled)).take
          cfg.topK.toNat) := by
  obtain ⟨_, _, _, _, _, _, htg, htgG⟩ := hok
  have htopk : cfg.topkGroup = 1 := by omega
  rw [bestGroups_single hgroups htopk, bestExperts_single, takenIds_insertAll _ henough]
  · simp [hfinite]
  · intro e he
    rw [perGroup_single hgroups]
    exact List.mem_range.mp (List.mem_filter.mp he).1

/-- Masked routing over one group is routing without the disabled experts. -/
theorem q8RouteMasked_deleted (hok : cfg.Ok) (hmax : cfg.nExperts ≤ moeLabMaxExperts)
    (hgroups : cfg.nGroup = 1) (x w bias : Nat → F)
    (hfinite : enabledExperts cfg disabled ≠ [] →
      fl.isFinite (maskedGroupScore fl cfg disabled (choiceScore fl cfg x w bias) 0) = true) :
    q8RouteMasked fl cfg disabled x w bias true =
      (kvlRouterNoauxTc fl (withoutExperts cfg disabled) x (withoutRows cfg disabled w)
        (fun e => bias (oldId cfg disabled e)) true).map
          (Prod.map (List.map (oldId cfg disabled)) id) := by
  obtain ⟨hH, hE, hk, hkE, hG, hmod, htg, htgG⟩ := id hok
  have htopk : cfg.topkGroup = 1 := by omega
  have hargs : ¬ (¬ cfg.Ok ∨ cfg.nExperts > moeLabMaxExperts) := by
    rintro (h | h)
    · exact h hok
    · omega
  unfold q8RouteMasked
  rw [if_neg hargs]
  by_cases hfew : (enabledExperts cfg disabled).length < cfg.topK.toNat
  · have hno : ¬ (withoutExperts cfg disabled).Ok := by
      rintro ⟨_, _, _, hle, _⟩
      change cfg.topK ≤ ((enabledExperts cfg disabled).length : Int) at hle
      omega
    change (if (enabledExperts cfg disabled).length < cfg.topK.toNat then none else _) = _
    rw [if_pos hfew, kvlRouterNoauxTc, if_pos hno]
    rfl
  · have hsome : enabledExperts cfg disabled ≠ [] := by
      intro hnil
      rw [hnil, List.length_nil] at hfew
      omega
    have hok' : (withoutExperts cfg disabled).Ok := by
      refine ⟨hH, ?_, hk, ?_, hG, ?_, htg, htgG⟩
      · have hpos := List.length_pos_iff.mpr hsome
        change 0 < ((enabledExperts cfg disabled).length : Int)
        omega
      · change cfg.topK ≤ ((enabledExperts cfg disabled).length : Int)
        omega
      · change ((enabledExperts cfg disabled).length : Int) % cfg.nGroup = 0
        rw [hgroups, Int.emod_one]
    have hchoice : choiceScore fl (withoutExperts cfg disabled) x (withoutRows cfg disabled w)
        (fun e => bias (oldId cfg disabled e)) =
        fun e => choiceScore fl cfg x w bias (oldId cfg disabled e) := by
      funext e
      unfold choiceScore
      rw [expertScore_withoutRows hH]
    have hmasked := takenIds_masked hok hgroups x w bias (hfinite hsome) (Nat.le_of_not_gt hfew)
    have hdeleted : ∀ score : Nat → F, takenIds (bestExperts fl (withoutExperts cfg disabled)
        (fun g => (bestGroups fl (withoutExperts cfg disabled) score).any
          fun place => place.any fun c => c.id == g)
        (fun e => choiceScore fl cfg x w bias (oldId cfg disabled e))
        (List.range (enabledExperts cfg disabled).length)) =
        some ((sortBy (fun a b => q8Better fl
          ⟨choiceScore fl cfg x w bias (oldId cfg disabled a), a⟩
          ⟨choiceScore fl cfg x w bias (oldId cfg disabled b), b⟩)
          (List.range (enabledExperts cfg disabled).length)).take cfg.topK.toNat) := by
      intro score
      have hsingle := @bestGroups_single _ _ fl (withoutExperts cfg disabled) hgroups htopk
      rw [hsingle, bestExperts_single, takenIds_insertAll]
      · rfl
      · rw [List.length_range]
        change cfg.topK.toNat ≤ _
        omega
      · simp
      · intro e he
        rw [@perGroup_single _ (withoutExperts cfg disabled) hgroups]
        exact List.mem_range.mp he
    change (if (enabledExperts cfg disabled).length < cfg.topK.toNat then none else
      finishRoute fl cfg x w (bestExperts fl cfg _ _ (enabledExperts cfg disabled))) = _
    rw [if_neg hfew, finishRoute, hmasked, Option.map_some, kvlRouterNoauxTc,
      if_neg (not_not.mpr hok')]
    change _ = (finishRoute fl (withoutExperts cfg disabled) x (withoutRows cfg disabled w)
      (bestExperts fl (withoutExperts cfg disabled) _ _
        (List.range (enabledExperts cfg disabled).length))).map _
    rw [hchoice, finishRoute, hdeleted, Option.map_some, Option.map_some, sortBy_oldId,
      ← List.map_take, routeWeights_withoutRows hH]
    rfl

end Deletion

section Exact
variable (exp : ℝ → ℝ) (cfg : RouterConfig ℝ) {disabled : Nat → Bool}

/-- The score of a group with an enabled member is finite. -/
theorem maskedGroupScore_exact (choice : Nat → ℝ) (g : Nat) :
    maskedGroupScore (exactRouter exp) (exactConfig cfg) disabled (extended choice) g =
      if ((groupMembers cfg g).filter fun e => !disabled e).length = 0 then ⊥
      else ((twoLargest (((groupMembers cfg g).filter fun e => !disabled e).map choice) : ℝ) :
        EReal) := by
  have hmap : ((groupMembers (exactConfig cfg) g).filter fun e => !disabled e).map
      (extended choice) =
      (((groupMembers cfg g).filter fun e => !disabled e).map choice).map Real.toEReal := by
    rw [List.map_map]
    rfl
  have hlen : (sortBy larger (((groupMembers cfg g).filter fun e => !disabled e).map
      choice)).length = ((groupMembers cfg g).filter fun e => !disabled e).length := by
    rw [(sortBy_perm _ _).length_eq, List.length_map]
  unfold maskedGroupScore
  dsimp only
  rw [hmap, topTwo_exact]
  change (if ((groupMembers cfg g).filter fun e => !disabled e).length = 0 then ⊥
    else if ((groupMembers cfg g).filter fun e => !disabled e).length = 1 then _ else _) = _
  split
  · rfl
  · rename_i hsome
    have hsum := @firstTwo_sum (sortBy larger
      (((groupMembers cfg g).filter fun e => !disabled e).map choice)) (by omega)
    rw [hlen] at hsum
    rw [twoLargest, ← sortBy_larger, ← hsum]
    split
    · rw [add_zero]
    · rfl

theorem isFinite_coe (a : ℝ) : (exactRouter exp).isFinite (a : EReal) = true := by
  simp [exactRouter]

theorem enabledExperts_all (hnone : ∀ e < cfg.nExperts.toNat, disabled e = false) :
    (List.range cfg.nExperts.toNat).filter (fun e => !disabled e) =
      List.range cfg.nExperts.toNat := by
  apply List.filter_eq_self.mpr
  intro e he
  rw [hnone e (List.mem_range.mp he)]
  rfl

theorem groupMembers_lt {g : Nat} (hok : cfg.Ok) (hg : g < cfg.nGroup.toNat) :
    ∀ e ∈ groupMembers cfg g, e < cfg.nExperts.toNat := by
  obtain ⟨_, _, _, _, hG, hmod, _⟩ := hok
  obtain ⟨q, hq⟩ := Int.dvd_of_emod_eq_zero hmod
  have hper : perGroup cfg = q.toNat := by
    unfold perGroup
    rw [hq, Int.mul_ediv_cancel_left _ (by omega)]
  have hE : cfg.nExperts.toNat = cfg.nGroup.toNat * perGroup cfg := by
    rw [hper, hq, Int.toNat_mul hG.le]
    by_contra hneg
    have : q < 0 := by omega
    nlinarith
  intro e he
  obtain ⟨j, hj, rfl⟩ := List.mem_map.mp he
  have hlt := List.mem_range.mp hj
  calc g * perGroup cfg + j < g * perGroup cfg + perGroup cfg := by omega
    _ = (g + 1) * perGroup cfg := by ring
    _ ≤ cfg.nGroup.toNat * perGroup cfg := Nat.mul_le_mul_right _ hg
    _ = cfg.nExperts.toNat := hE.symm

/-- With nothing disabled the masked group score is the unmasked one. -/
theorem maskedGroupScore_none (hok : cfg.Ok) (hnone : ∀ e < cfg.nExperts.toNat, disabled e = false)
    (choice : Nat → ℝ) {g : Nat} (hg : g < cfg.nGroup.toNat) :
    maskedGroupScore (exactRouter exp) (exactConfig cfg) disabled (extended choice) g =
      (groupValue cfg choice g : ℝ) := by
  have hall : (groupMembers cfg g).filter (fun e => !disabled e) = groupMembers cfg g := by
    apply List.filter_eq_self.mpr
    intro e he
    rw [hnone e (groupMembers_lt cfg hok hg e he)]
    rfl
  have hpos := perGroup_pos hok
  have hlen : (groupMembers cfg g).length ≠ 0 := by
    simp only [groupMembers, List.length_map, List.length_range]
    omega
  rw [maskedGroupScore_exact, hall, if_neg hlen, groupValue]

/-- A mask that disables no expert of the layer changes nothing. -/
theorem q8RouteMasked_none (hok : cfg.Ok) (hmax : cfg.nExperts ≤ moeLabMaxExperts)
    (hnone : ∀ e < cfg.nExperts.toNat, disabled e = false) (x w bias : Nat → ℝ) :
    q8RouteMasked (exactRouter exp) (exactConfig cfg) disabled (extended x) (extended w)
        (extended bias) true =
      kvlRouterNoauxTc (exactRouter exp) (exactConfig cfg) (extended x) (extended w)
        (extended bias) true := by
  have hchoice : choiceScore (exactRouter exp) (exactConfig cfg) (extended x) (extended w)
      (extended bias) = extended (biasedScore exp cfg x w bias) :=
    funext fun e => choiceScore_exact exp cfg x w bias e
  have hraw : rawGroupScore (exactRouter exp) (exactConfig cfg)
      (extended (biasedScore exp cfg x w bias)) =
      extended (groupValue cfg (biasedScore exp cfg x w bias)) :=
    funext fun g => rawGroupScore_exact exp cfg hok _ g
  have hgroups : bestGroups (exactRouter exp) (exactConfig cfg) (maskedGroupScore (exactRouter exp)
        (exactConfig cfg) disabled (extended (biasedScore exp cfg x w bias))) =
      bestGroups (exactRouter exp) (exactConfig cfg)
        (extended (groupValue cfg (biasedScore exp cfg x w bias))) := by
    have hmap : ∀ g ∈ List.range cfg.nGroup.toNat,
        (⟨maskedGroupScore (exactRouter exp) (exactConfig cfg) disabled
          (extended (biasedScore exp cfg x w bias)) g, g⟩ : Choice EReal) =
        ⟨extended (groupValue cfg (biasedScore exp cfg x w bias)) g, g⟩ := by
      intro g hg
      rw [maskedGroupScore_none exp cfg hok hnone _ (List.mem_range.mp hg)]
      rfl
    unfold bestGroups
    change insertAll _ _ ((List.range cfg.nGroup.toNat).map _) =
      insertAll _ _ ((List.range cfg.nGroup.toNat).map _)
    rw [List.map_congr_left hmap]
  obtain ⟨kept, hkept, _⟩ :=
    bestGroups_exact exp cfg hok (groupValue cfg (biasedScore exp cfg x w bias))
  have hkeep : ∀ g, (((kept.map fun g => (⟨(groupValue cfg (biasedScore exp cfg x w bias) g : ℝ),
      g⟩ : Choice EReal)).map some).any fun place => place.any fun c =>
        c.id == g && (exactRouter exp).isFinite c.score) =
      (((kept.map fun g => (⟨(groupValue cfg (biasedScore exp cfg x w bias) g : ℝ),
        g⟩ : Choice EReal)).map some).any fun place => place.any fun c => c.id == g) := by
    intro g
    simp only [List.any_map, Function.comp_def, Option.any_some, isFinite_coe, Bool.and_true]
  have hargs : ¬ (¬ (exactConfig cfg).Ok ∨ (exactConfig cfg).nExperts > moeLabMaxExperts) := by
    rintro (h | h)
    · exact h hok
    · change cfg.nExperts > _ at h
      omega
  have henough : ¬ (List.range cfg.nExperts.toNat).length < cfg.topK.toNat := by
    obtain ⟨_, _, _, hle, _⟩ := hok
    rw [List.length_range]
    omega
  unfold q8RouteMasked kvlRouterNoauxTc
  rw [if_neg hargs, if_neg (not_not.mpr (show (exactConfig cfg).Ok from hok))]
  change (if ((List.range cfg.nExperts.toNat).filter fun e => !disabled e).length <
      cfg.topK.toNat then none else finishRoute _ _ _ _ (bestExperts _ _ (fun g =>
        (bestGroups (exactRouter exp) (exactConfig cfg) (maskedGroupScore _ _ _ _)).any _) _
          ((List.range cfg.nExperts.toNat).filter fun e => !disabled e))) =
    finishRoute _ _ _ _ (bestExperts _ _ (fun g =>
      (bestGroups (exactRouter exp) (exactConfig cfg) (rawGroupScore _ _ _)).any _) _
        (List.range cfg.nExperts.toNat))
  rw [enabledExperts_all cfg hnone, if_neg henough, hchoice, hgroups, hraw, hkept, funext hkeep]

end Exact

section Layer
variable {F D : Type*}

/-- The disabled set of one layer, once the mask is loaded. -/
def disabledIn (files : Bytes → Option Bytes) (env : Option Bytes) (g : MoeMask) (layer : Int)
    (e : Nat) : Bool :=
  moeIsDisabled (moeMaskLoad files env g).2 layer e

/-- `kvl_router_noaux_tc` on the model without the disabled experts, under their old ids. -/
def routeDeleted (fl : RouterFloats F D) (cfg : RouterConfig F) (disabled : Nat → Bool)
    (x w bias : Nat → F) : Option (List Nat × List F) :=
  (kvlRouterNoauxTc fl (withoutExperts cfg disabled) x (withoutRows cfg disabled w)
    (fun e => bias (oldId cfg disabled e)) true).map (Prod.map (List.map (oldId cfg disabled)) id)

theorem q8RouterForLayer_loaded (fl : RouterFloats F D) (cfg : RouterConfig F)
    {files : Bytes → Option Bytes} {env : Option Bytes} {g : MoeMask}
    (hmask : 0 < (moeMaskLoad files env g).1) (layer : Int) (x w bias : Nat → F) (allocOk : Bool) :
    (q8RouterForLayer fl cfg files env g layer x w bias allocOk).1 =
      q8RouteMasked fl cfg (disabledIn files env g layer) x w bias allocOk := by
  unfold q8RouterForLayer
  dsimp only
  rw [if_neg (by omega), if_neg (by omega)]
  rfl

end Layer

/-- The masked router of a layer, with a mask loaded. -/
theorem q8RouterForLayer_masked (exp : ℝ → ℝ) (cfg : RouterConfig ℝ) (hok : cfg.Ok)
    (hmax : cfg.nExperts ≤ moeLabMaxExperts) (files : Bytes → Option Bytes) (env : Option Bytes)
    (g : MoeMask) (hmask : 0 < (moeMaskLoad files env g).1) (layer : Int) (x w bias : Nat → ℝ) :
    (cfg.nGroup = 1 →
      (q8RouterForLayer (exactRouter exp) (exactConfig cfg) files env g layer (extended x)
          (extended w) (extended bias) true).1 =
        routeDeleted (exactRouter exp) (exactConfig cfg) (disabledIn files env g layer)
          (extended x) (extended w) (extended bias) ∧
      ((q8RouterForLayer (exactRouter exp) (exactConfig cfg) files env g layer (extended x)
          (extended w) (extended bias) true).1 = none ↔
        ((enabledExperts cfg (disabledIn files env g layer)).length : Int) < cfg.topK)) ∧
    ((∀ e < cfg.nExperts.toNat, disabledIn files env g layer e = false) →
      (q8RouterForLayer (exactRouter exp) (exactConfig cfg) files env g layer (extended x)
          (extended w) (extended bias) true).1 =
        kvlRouterNoauxTc (exactRouter exp) (exactConfig cfg) (extended x) (extended w)
          (extended bias) true) := by
  rw [q8RouterForLayer_loaded _ _ hmask]
  refine ⟨fun hgroups => ?_, fun hnone => q8RouteMasked_none exp cfg hok hmax hnone x w bias⟩
  have hchoice : choiceScore (exactRouter exp) (exactConfig cfg) (extended x) (extended w)
      (extended bias) = extended (biasedScore exp cfg x w bias) :=
    funext fun e => choiceScore_exact exp cfg x w bias e
  have hall : groupMembers cfg 0 = List.range cfg.nExperts.toNat := by
    unfold groupMembers
    rw [perGroup_single hgroups]
    simp
  have hfinite : enabledExperts cfg (disabledIn files env g layer) ≠ [] →
      (exactRouter exp).isFinite (maskedGroupScore (exactRouter exp) (exactConfig cfg)
        (disabledIn files env g layer) (choiceScore (exactRouter exp) (exactConfig cfg)
          (extended x) (extended w) (extended bias)) 0) = true := by
    intro hsome
    have hlen : ((List.range cfg.nExperts.toNat).filter fun e =>
        !disabledIn files env g layer e).length ≠ 0 :=
      fun hnil => hsome (List.length_eq_zero_iff.mp hnil)
    rw [hchoice, maskedGroupScore_exact, hall, if_neg hlen]
    exact isFinite_coe exp _
  have hok' : (exactConfig cfg).Ok := hok
  refine ⟨q8RouteMasked_deleted hok' hmax hgroups _ _ _ hfinite, ?_⟩
  have hargs : ¬ (¬ (exactConfig cfg).Ok ∨ (exactConfig cfg).nExperts > moeLabMaxExperts) := by
    rintro (h | h)
    · exact h hok
    · change cfg.nExperts > _ at h
      omega
  have htop : 0 < cfg.topK := hok.2.2.1
  unfold q8RouteMasked
  rw [if_neg hargs]
  change (if (enabledExperts cfg (disabledIn files env g layer)).length < cfg.topK.toNat then none
    else finishRoute _ (exactConfig cfg) (extended x) (extended w) (bestExperts _ _ _ _
      (enabledExperts (exactConfig cfg) (disabledIn files env g layer)))) = none ↔ _
  by_cases hfew : (enabledExperts cfg (disabledIn files env g layer)).length < cfg.topK.toNat
  · rw [if_pos hfew]
    simp only [true_iff]
    omega
  · have hsome : enabledExperts cfg (disabledIn files env g layer) ≠ [] := by
      intro hnil
      rw [hnil, List.length_nil] at hfew
      omega
    rw [if_neg hfew, finishRoute, takenIds_masked hok' hgroups _ _ _ (hfinite hsome)
      (Nat.le_of_not_gt hfew)]
    simp only [Option.map_some, reduceCtorEq, false_iff]
    omega

/-- Three experts in one group, and a mask that disables expert 1 of layer 2. -/
def threeExperts : RouterConfig ℝ := ⟨1, 3, 2, 1, 1, true, 1⟩

def loadedMask : MoeMask := ⟨2, fun layer e => layer == 2 && e == 1⟩

theorem q8RouterForLayer_masked_threeExperts :
    (q8RouterForLayer (exactRouter Real.exp) (exactConfig threeExperts) (fun _ => none) none
        loadedMask 2 (extended fun _ => 1) (extended fun e => e) (extended fun _ => 0) true).1 =
      routeDeleted (exactRouter Real.exp) (exactConfig threeExperts)
        (disabledIn (fun _ => none) none loadedMask 2) (extended fun _ => 1)
        (extended fun e => e) (extended fun _ => 0) ∧
    (q8RouterForLayer (exactRouter Real.exp) (exactConfig threeExperts) (fun _ => none) none
        loadedMask 1 (extended fun _ => 1) (extended fun e => e) (extended fun _ => 0) true).1 =
      kvlRouterNoauxTc (exactRouter Real.exp) (exactConfig threeExperts) (extended fun _ => 1)
        (extended fun e => e) (extended fun _ => 0) true := by
  have hok : threeExperts.Ok := by decide
  have hmax : threeExperts.nExperts ≤ moeLabMaxExperts := by decide
  have hmask : 0 < (moeMaskLoad (fun _ => none) none loadedMask).1 := by decide
  have hnone : ∀ e < threeExperts.nExperts.toNat,
      disabledIn (fun _ => none) none loadedMask 1 e = false := by
    intro e _
    simp [disabledIn, moeMaskLoad, loadedMask, moeIsDisabled]
  have htwo := q8RouterForLayer_masked Real.exp threeExperts hok hmax (fun _ => none) none
    loadedMask hmask 2 (fun _ => 1) (fun e => e) fun _ => 0
  have hone := q8RouterForLayer_masked Real.exp threeExperts hok hmax (fun _ => none) none
    loadedMask hmask 1 (fun _ => 1) (fun e => e) fun _ => 0
  exact ⟨(htwo.1 rfl).1, hone.2 hnone⟩

end Kvl

import Kvl.Lib.Ranking
import Kvl.Lib.Sums
import Kvl.Router.Model

/-!
# The router in exact arithmetic

`float` becomes the extended reals, which have the `-INFINITY` of the group
scores, and `double` the reals. `exp` stays abstract. The reference below says
what the selection is for, in terms of reals and orders only.
-/

namespace Kvl

set_option autoImplicit false

open TopK

noncomputable def exactRouter (exp : ℝ → ℝ) : RouterFloats EReal ℝ where
  zero := 0
  one := 1
  negInf := ⊥
  add := (· + ·)
  mul := (· * ·)
  div := (· / ·)
  neg := (- ·)
  exp a := (exp a.toReal : ℝ)
  gt a b := decide (b < a)
  eq a b := decide (a = b)
  isFinite a := decide (a ≠ ⊥ ∧ a ≠ ⊤)
  widen := EReal.toReal
  narrow a := (a : ℝ)
  addD := (· + ·)
  mulD := (· * ·)
  zeroD := 0
  tinyD := 1 / 10 ^ 20

/-- Finite values as extended ones. -/
def extended (v : Nat → ℝ) (i : Nat) : EReal := (v i : ℝ)

def exactConfig (cfg : RouterConfig ℝ) : RouterConfig EReal :=
  { cfg with routedScalingFactor := (cfg.routedScalingFactor : ℝ) }

section Reference
variable (exp : ℝ → ℝ) (cfg : RouterConfig ℝ) (x w bias : Nat → ℝ)

noncomputable def unbiasedScore (e : Nat) : ℝ :=
  1 / (1 + exp (-∑ i ∈ Finset.range cfg.hiddenSize.toNat,
    w (e * cfg.hiddenSize.toNat + i) * x i))

noncomputable def biasedScore (e : Nat) : ℝ := unbiasedScore exp cfg x w e + bias e

/-- The sum of the two largest values, or the single one. -/
noncomputable def twoLargest (vs : List ℝ) : ℝ := ((vs.insertionSort (· ≥ ·)).take 2).sum

noncomputable def groupValue (choice : Nat → ℝ) (g : Nat) : ℝ :=
  twoLargest ((groupMembers cfg g).map choice)

/-- Larger values first, and of two equal ones the smaller id. -/
def ComesFirst (v : Nat → ℝ) (a b : Nat) : Prop := v b < v a ∨ (v a = v b ∧ a < b)

/-- The value an expert competes with. -/
noncomputable def maskedChoice (kept : List Nat) (choice : Nat → ℝ) (e : Nat) : ℝ :=
  if e / perGroup cfg ∈ kept then choice e else 0

noncomputable def selectedWeight (ids : List Nat) (e : Nat) : ℝ :=
  if 1 < cfg.topK ∧ cfg.normTopkProb = true then
    unbiasedScore exp cfg x w e / ((ids.map (unbiasedScore exp cfg x w)).sum + 1 / 10 ^ 20) *
      cfg.routedScalingFactor
  else unbiasedScore exp cfg x w e * cfg.routedScalingFactor

end Reference

section Order

theorem ComesFirst.trans {v : Nat → ℝ} {a b c : Nat} (h : ComesFirst v a b)
    (h' : ComesFirst v b c) : ComesFirst v a c := by
  rcases h with h | ⟨h, hab⟩
  · rcases h' with h' | ⟨h', _⟩
    · exact .inl (h'.trans h)
    · exact .inl (h' ▸ h)
  · rcases h' with h' | ⟨h', hbc⟩
    · exact .inl (h ▸ h')
    · exact .inr ⟨h.trans h', hab.trans hbc⟩

theorem ComesFirst.total (v : Nat → ℝ) {a b : Nat} (h : a ≠ b) :
    ComesFirst v a b ∨ ComesFirst v b a := by
  rcases lt_trichotomy (v a) (v b) with hlt | heq | hgt
  · exact .inr (.inl hlt)
  · rcases Nat.lt_or_gt_of_ne h with hab | hba
    · exact .inl (.inr ⟨heq, hab⟩)
    · exact .inr (.inr ⟨heq.symm, hba⟩)
  · exact .inl (.inl hgt)

theorem q8Better_exact (exp : ℝ → ℝ) (v : Nat → ℝ) (a b : Nat) :
    q8Better (exactRouter exp) ⟨(v a : ℝ), a⟩ ⟨(v b : ℝ), b⟩ = true ↔ ComesFirst v a b := by
  simp [q8Better, exactRouter, ComesFirst]

/-- Bounded insertion of finite values keeps the leading ids. -/
theorem insertAll_exact (exp : ℝ → ℝ) (v : Nat → ℝ) {xs : List Nat} (hnd : xs.Nodup) {k : Nat}
    (hk : k ≤ xs.length) :
    ∃ chosen : List Nat, insertAll (q8Better (exactRouter exp)) (List.replicate k none)
        (xs.map fun e => ⟨(v e : ℝ), e⟩) =
          (chosen.map fun e => (⟨(v e : ℝ), e⟩ : Choice EReal)).map some ∧
      Leading (ComesFirst v) k xs chosen :=
  insertAll_leading _ (q8Better_exact exp v) ComesFirst.trans
    (ComesFirst.total v) hnd hk

theorem takenIds_map (v : Nat → EReal) (ids : List Nat) :
    takenIds ((ids.map fun e => (⟨v e, e⟩ : Choice EReal)).map some) = some ids := by
  induction ids with
  | nil => rfl
  | cons e ids ih =>
    rw [List.map_cons, List.map_cons, takenIds, ih]
    rfl

end Order

section Values
variable (exp : ℝ → ℝ) (cfg : RouterConfig ℝ) (x w bias : Nat → ℝ)

theorem expertScore_exact (e : Nat) :
    expertScore (exactRouter exp) (exactConfig cfg) (extended x) (extended w) e =
      (unbiasedScore exp cfg x w e : ℝ) := by
  have hdot : (List.range cfg.hiddenSize.toNat).foldl (fun z i =>
      z + w (e * cfg.hiddenSize.toNat + i) * x i) 0 =
      ∑ i ∈ Finset.range cfg.hiddenSize.toNat, w (e * cfg.hiddenSize.toNat + i) * x i := by
    rw [Sums.foldl_range_add, zero_add]
  simp only [expertScore, exactRouter, exactConfig, extended, EReal.toReal_coe, hdot]
  rw [← EReal.coe_neg, EReal.toReal_coe, unbiasedScore, EReal.coe_div, EReal.coe_add,
    EReal.coe_one]

theorem choiceScore_exact (e : Nat) :
    choiceScore (exactRouter exp) (exactConfig cfg) (extended x) (extended w) (extended bias) e =
      (biasedScore exp cfg x w bias e : ℝ) := by
  unfold choiceScore
  rw [expertScore_exact, biasedScore, EReal.coe_add]
  rfl

/-- The two leading entries, with `-INFINITY` for what is missing. -/
noncomputable def firstTwo : List ℝ → EReal × EReal
  | [] => (⊥, ⊥)
  | [a] => ((a : ℝ), ⊥)
  | a :: b :: _ => ((a : ℝ), (b : ℝ))

noncomputable def larger (a b : ℝ) : Bool := decide (b < a)

/-- One round of the loop over a group. -/
noncomputable def pushTwo (ab : EReal × EReal) (v : EReal) : EReal × EReal :=
  if (exactRouter exp).gt v ab.1 then (v, ab.1)
  else if (exactRouter exp).gt v ab.2 then (ab.1, v)
  else ab

theorem firstTwo_insertBy (v : ℝ) (l : List ℝ) :
    firstTwo (insertBy larger v l) = pushTwo exp (firstTwo l) (v : ℝ) := by
  match l with
  | [] => simp [insertBy, firstTwo, pushTwo, exactRouter]
  | [a] =>
    by_cases ha : a < v
    · simp [insertBy, firstTwo, pushTwo, exactRouter, larger, ha]
    · simp [insertBy, firstTwo, pushTwo, exactRouter, larger, ha]
  | a :: b :: rest =>
    by_cases ha : a < v
    · simp [insertBy, firstTwo, pushTwo, exactRouter, larger, ha]
    · by_cases hb : b < v
      · simp [insertBy, firstTwo, pushTwo, exactRouter, larger, ha, hb]
      · simp [insertBy, firstTwo, pushTwo, exactRouter, larger, ha, hb]

theorem topTwo_exact (vs : List ℝ) :
    topTwo (exactRouter exp) (vs.map Real.toEReal) = firstTwo (sortBy larger vs) := by
  have go : ∀ l, (vs.map Real.toEReal).foldl (pushTwo exp) (firstTwo l) =
      firstTwo (vs.foldl (fun l a => insertBy larger a l) l) := by
    induction vs with
    | nil => exact fun _ => rfl
    | cons v vs ih =>
      intro l
      rw [List.map_cons, List.foldl_cons, List.foldl_cons, ← ih, firstTwo_insertBy exp]
  exact go []

theorem sortBy_larger (vs : List ℝ) : sortBy larger vs = vs.insertionSort (· ≥ ·) := by
  have hdecides : ∀ a b : ℝ, Decides larger (· ≥ ·) a b := by
    intro a b
    refine ⟨fun h => ?_, fun h => ?_⟩
    · exact (of_decide_eq_true h).le
    · exact not_lt.mp (of_decide_eq_false h)
  have hsorted : (sortBy larger vs).Pairwise (· ≥ ·) :=
    sortBy_pairwise ge_trans (List.pairwise_of_forall fun a b => hdecides b a)
  have hperm := (sortBy_perm larger vs).trans (List.perm_insertionSort (· ≥ ·) vs).symm
  exact hperm.eq_of_pairwise (fun a b _ _ => fun hab hba => le_antisymm hba hab) hsorted
    (List.pairwise_insertionSort (· ≥ ·) vs)

/-- The group score of the source, before it is shown to be `groupValue`. -/
def rawGroupScore {F D : Type*} (fl : RouterFloats F D) (cfg : RouterConfig F) (choice : Nat → F)
    (g : Nat) : F :=
  let ab := topTwo fl ((groupMembers cfg g).map choice)
  fl.add ab.1 (if perGroup cfg = 1 then fl.zero else ab.2)

theorem perGroup_pos {F : Type*} {cfg : RouterConfig F} (hok : cfg.Ok) : 0 < perGroup cfg := by
  obtain ⟨_, hE, _, _, hG, hmod, _, _⟩ := hok
  obtain ⟨q, hq⟩ := Int.dvd_of_emod_eq_zero hmod
  have hdiv : cfg.nExperts / cfg.nGroup = q := by rw [hq, Int.mul_ediv_cancel_left _ (by omega)]
  have hpos : 0 < q := by
    by_contra hno
    have hle : cfg.nGroup * q ≤ 0 := Int.mul_nonpos_of_nonneg_of_nonpos hG.le (by omega)
    omega
  unfold perGroup
  omega

theorem firstTwo_sum {l : List ℝ} (h : 0 < l.length) :
    (firstTwo l).1 + (if l.length = 1 then 0 else (firstTwo l).2) = ((l.take 2).sum : ℝ) := by
  match l with
  | [] => simp at h
  | [a] => simp [firstTwo]
  | a :: b :: rest => simp [firstTwo]

theorem rawGroupScore_exact (hok : cfg.Ok) (choice : Nat → ℝ) (g : Nat) :
    rawGroupScore (exactRouter exp) (exactConfig cfg) (extended choice) g =
      (groupValue cfg choice g : ℝ) := by
  have hpos := perGroup_pos hok
  have hlen : (sortBy larger ((groupMembers cfg g).map choice)).length = perGroup cfg := by
    rw [(sortBy_perm _ _).length_eq]
    simp [groupMembers]
  have hmembers : (groupMembers (exactConfig cfg) g).map (extended choice) =
      ((groupMembers cfg g).map choice).map Real.toEReal := by
    rw [List.map_map]
    rfl
  have hsum := @firstTwo_sum (sortBy larger ((groupMembers cfg g).map choice)) (by omega)
  rw [hlen] at hsum
  unfold rawGroupScore
  rw [hmembers, topTwo_exact, groupValue, twoLargest, ← sortBy_larger, ← hsum]
  rfl

end Values

section Selection
variable (exp : ℝ → ℝ) (cfg : RouterConfig ℝ)

/-- The groups the loop over groups leaves in its places. -/
theorem bestGroups_exact (hok : cfg.Ok) (value : Nat → ℝ) :
    ∃ kept, bestGroups (exactRouter exp) (exactConfig cfg) (extended value) =
        (kept.map fun g => (⟨(value g : ℝ), g⟩ : Choice EReal)).map some ∧
      Leading (ComesFirst value) cfg.topkGroup.toNat (List.range cfg.nGroup.toNat) kept := by
  obtain ⟨_, _, _, _, _, _, _, hle⟩ := hok
  have hlen : cfg.topkGroup.toNat ≤ (List.range cfg.nGroup.toNat).length := by
    rw [List.length_range]
    omega
  exact insertAll_exact exp value List.nodup_range hlen

theorem keep_iff (value : Nat → ℝ) (kept : List Nat) (g : Nat) :
    (((kept.map fun g => (⟨(value g : ℝ), g⟩ : Choice EReal)).map some).any fun place =>
      place.any fun c => c.id == g) = decide (g ∈ kept) := by
  rw [Bool.eq_iff_iff]
  simp [List.any_eq_true]

/-- The experts the last loop leaves in its places, for the groups kept. -/
theorem bestExperts_exact {keep : Nat → Bool} {kept : List Nat}
    (hkeep : ∀ g, keep g = decide (g ∈ kept)) (choice : Nat → ℝ) {experts : List Nat}
    (hnd : experts.Nodup) (htop : cfg.topK.toNat ≤ experts.length) :
    ∃ ids, takenIds (bestExperts (exactRouter exp) (exactConfig cfg) keep (extended choice)
        experts) = some ids ∧
      Leading (ComesFirst (maskedChoice cfg kept choice)) cfg.topK.toNat experts ids := by
  obtain ⟨ids, heq, hlead⟩ :=
    insertAll_exact exp (maskedChoice cfg kept choice) hnd htop
  refine ⟨ids, ?_, hlead⟩
  have hvalue : ∀ e, (if keep (e / perGroup (exactConfig cfg)) then extended choice e
      else (exactRouter exp).zero) = ((maskedChoice cfg kept choice e : ℝ) : EReal) := by
    intro e
    change (if keep (e / perGroup cfg) then _ else _) = _
    rw [hkeep, maskedChoice]
    by_cases h : e / perGroup cfg ∈ kept
    · simp [h, extended]
    · simp [h, exactRouter]
  unfold bestExperts
  simp only [hvalue]
  change takenIds (insertAll _ (List.replicate cfg.topK.toNat none) _) = _
  rw [heq, takenIds_map]

theorem routeWeights_exact (x w : Nat → ℝ) (ids : List Nat) :
    routeWeights (exactRouter exp) (exactConfig cfg) (extended x) (extended w) ids =
      ids.map fun e => ((selectedWeight exp cfg x w ids e : ℝ) : EReal) := by
  have hsum : ∀ (l : List Nat) (start : ℝ),
      (l.map fun e => ((unbiasedScore exp cfg x w e : ℝ) : EReal)).foldl
        (fun sum v => sum + v.toReal) start =
      start + (l.map (unbiasedScore exp cfg x w)).sum := by
    intro l
    induction l with
    | nil => exact fun start => (add_zero start).symm
    | cons e l ih =>
      intro start
      rw [List.map_cons, List.foldl_cons, ih, EReal.toReal_coe, List.map_cons, List.sum_cons,
        add_assoc]
  have hraw : ids.map (expertScore (exactRouter exp) (exactConfig cfg) (extended x) (extended w)) =
      ids.map fun e => ((unbiasedScore exp cfg x w e : ℝ) : EReal) :=
    List.map_congr_left fun e _ => expertScore_exact exp cfg x w e
  unfold routeWeights
  rw [hraw]
  by_cases hnorm : cfg.topK > 1 ∧ cfg.normTopkProb = true
  · have hnorm' : (exactConfig cfg).topK > 1 ∧ (exactConfig cfg).normTopkProb = true := hnorm
    simp only [if_pos hnorm', List.map_map]
    apply List.map_congr_left
    intro e _
    have hfold := hsum ids 0
    rw [zero_add] at hfold
    simp only [selectedWeight, if_pos hnorm, Function.comp_apply, exactRouter, exactConfig, hfold]
    rw [EReal.coe_mul, EReal.coe_div]
  · have hnorm' : ¬ ((exactConfig cfg).topK > 1 ∧ (exactConfig cfg).normTopkProb = true) := hnorm
    simp only [if_neg hnorm', List.map_map]
    apply List.map_congr_left
    intro e _
    simp only [selectedWeight, if_neg hnorm, Function.comp_apply, exactRouter, exactConfig]
    rw [EReal.coe_mul]

end Selection

/-- What `kvl_router_noaux_tc` selects and returns: the groups kept, the experts
chosen among the masked values, and their weights. -/
theorem kvlRouterNoauxTc_exact (exp : ℝ → ℝ) (cfg : RouterConfig ℝ) (hok : cfg.Ok)
    (x w bias : Nat → ℝ) :
    ∃ kept ids : List Nat,
      takenIds (bestGroups (exactRouter exp) (exactConfig cfg)
        (rawGroupScore (exactRouter exp) (exactConfig cfg)
          (choiceScore (exactRouter exp) (exactConfig cfg) (extended x) (extended w)
            (extended bias)))) = some kept ∧
      Leading (ComesFirst (groupValue cfg (biasedScore exp cfg x w bias))) cfg.topkGroup.toNat
        (List.range cfg.nGroup.toNat) kept ∧
      Leading (ComesFirst (maskedChoice cfg kept (biasedScore exp cfg x w bias))) cfg.topK.toNat
        (List.range cfg.nExperts.toNat) ids ∧
      ids.Nodup ∧
      kvlRouterNoauxTc (exactRouter exp) (exactConfig cfg) (extended x) (extended w)
          (extended bias) true =
        some (ids, ids.map fun e => ((selectedWeight exp cfg x w ids e : ℝ) : EReal)) := by
  have hchoice : choiceScore (exactRouter exp) (exactConfig cfg) (extended x) (extended w)
      (extended bias) = extended (biasedScore exp cfg x w bias) :=
    funext fun e => choiceScore_exact exp cfg x w bias e
  have hgroups : rawGroupScore (exactRouter exp) (exactConfig cfg)
      (extended (biasedScore exp cfg x w bias)) =
      extended (groupValue cfg (biasedScore exp cfg x w bias)) :=
    funext fun g => rawGroupScore_exact exp cfg hok _ g
  obtain ⟨kept, hkept, hleadG⟩ :=
    bestGroups_exact exp cfg hok (groupValue cfg (biasedScore exp cfg x w bias))
  have htop : cfg.topK.toNat ≤ (List.range cfg.nExperts.toNat).length := by
    obtain ⟨_, _, _, hle, _⟩ := hok
    rw [List.length_range]
    omega
  obtain ⟨ids, hids, hleadE⟩ := bestExperts_exact exp cfg (fun g => keep_iff _ kept g)
    (biasedScore exp cfg x w bias) List.nodup_range htop
  refine ⟨kept, ids, ?_, hleadG, hleadE, ?_, ?_⟩
  · rw [hchoice, hgroups, hkept, takenIds_map]
  · refine hleadE.ordered.imp ?_
    rintro a b hab rfl
    rcases hab with hlt | ⟨_, hlt⟩
    · exact lt_irrefl _ hlt
    · exact lt_irrefl _ hlt
  · have hok' : ¬ ¬ (exactConfig cfg).Ok := not_not.mpr hok
    unfold kvlRouterNoauxTc
    rw [if_neg hok']
    change finishRoute _ _ _ _ (bestExperts _ _ (fun g =>
      (bestGroups (exactRouter exp) (exactConfig cfg) (rawGroupScore _ _ _)).any _) _ _) = _
    rw [hchoice, hgroups, hkept, finishRoute]
    change (takenIds (bestExperts _ _ _ _ (List.range cfg.nExperts.toNat))).map _ = _
    rw [hids, Option.map_some, routeWeights_exact]

/-- Four experts in two groups, of which one group and two experts are chosen. -/
def fourExperts : RouterConfig ℝ := ⟨1, 4, 2, 2, 1, true, 1⟩

theorem kvlRouterNoauxTc_exact_fourExperts : ∃ kept ids : List Nat,
    Leading (ComesFirst (groupValue fourExperts
      (biasedScore Real.exp fourExperts (fun _ => 1) (fun e => e) fun _ => 0))) 1
      (List.range 2) kept ∧ ids.Nodup := by
  have hok : fourExperts.Ok := by decide
  obtain ⟨kept, ids, _, hlead, _, hnd, _⟩ :=
    kvlRouterNoauxTc_exact Real.exp fourExperts hok (fun _ => 1) (fun e => e) fun _ => 0
  exact ⟨kept, ids, hlead, hnd⟩

end Kvl

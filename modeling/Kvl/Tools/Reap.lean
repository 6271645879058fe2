import Kvl.Lib.Dict
import Kvl.Lib.Greedy
import Kvl.Lib.PyText

/-!
# The pruning masks

The mask selection of `build_report`: one greedy order over the slots of all
layers, with a cap per layer and one per router group of a layer, and a snapshot
at every target size.
-/

namespace Kvl.Reap

set_option autoImplicit false

open PyText (Exc valueError text strInt)

/-- What the order looks at; the other columns of a row are for the report. -/
structure ReapScore (K : Type*) where
  finalScore : K
  supportKinds : Nat
  selectedTotal : Nat
  deriving DecidableEq, Repr

structure ReapRow (K : Type*) where
  layer : Int
  expert : Int
  score : ReapScore K
  deriving DecidableEq, Repr

section Selection
variable {K : Type*}

/-- `expert_rows`, of the layers in order. -/
def expertRows (layers : Finset Int) (nExperts : Int) (table : Int → Int → ReapScore K) :
    List (ReapRow K) :=
  layers.sort.flatMap fun layer =>
    (List.range nExperts.toNat).map fun (expert : Nat) => ⟨layer, expert, table layer expert⟩

/-- The sort key. -/
def reapKey (r : ReapRow K) : K ×ₗ Nat ×ₗ Nat ×ₗ Int ×ₗ Int :=
  toLex (r.score.finalScore, toLex (r.score.supportKinds, toLex (r.score.selectedTotal,
    toLex (r.layer, r.expert))))

structure ReapState (K : Type*) where
  layerUsed : List (Int × Int)
  groupUsed : List ((Int × Int) × Int)
  chosen : List (ReapRow K)
  snapshots : List (Int × List (ReapRow K))

/-- `used[k]` of a `defaultdict(int)`. -/
def usedOf {κ : Type*} [DecidableEq κ] (k : κ) (used : List (κ × Int)) : Int :=
  (Dict.get k used).getD 0

def countUse {κ : Type*} [DecidableEq κ] (k : κ) (used : List (κ × Int)) : List (κ × Int) :=
  Dict.modify k (fun n => n.getD 0 + 1) used

/-- The state after `row` is chosen. -/
def chooseRow (perGroup : Int) (wanted : List Int) (row : ReapRow K) (s : ReapState K) :
    ReapState K :=
  let chosen := s.chosen ++ [row]
  { layerUsed := countUse row.layer s.layerUsed
    groupUsed := countUse (row.layer, row.expert / perGroup) s.groupUsed
    chosen := chosen
    snapshots :=
      if (chosen.length : Int) ∈ wanted then Dict.set (chosen.length : Int) chosen s.snapshots
      else s.snapshots }

/-- The loop over the order. -/
def reapLoop (perGroup maxPerLayer maxPerGroup maxTarget : Int) (wanted : List Int) :
    List (ReapRow K) → ReapState K → ReapState K
  | [], s => s
  | row :: order, s =>
    if maxPerLayer ≤ usedOf row.layer s.layerUsed then
      reapLoop perGroup maxPerLayer maxPerGroup maxTarget wanted order s
    else if maxPerGroup ≤ usedOf (row.layer, row.expert / perGroup) s.groupUsed then
      reapLoop perGroup maxPerLayer maxPerGroup maxTarget wanted order s
    else
      let s := chooseRow perGroup wanted row s
      if maxTarget ≤ s.chosen.length then s
      else reapLoop perGroup maxPerLayer maxPerGroup maxTarget wanted order s

variable [LinearOrder K]

/-- The selection in `build_report`, with its checks of the arguments. -/
def reapMasks (layers : Finset Int) (nExperts nGroups : Int) (table : Int → Int → ReapScore K)
    (targets : List Int) (maxPerLayer maxPerGroup : Int) :
    Except Exc (List (Int × List (ReapRow K))) :=
  if nExperts ≤ 0 ∨ nGroups ≤ 0 ∨ nExperts % nGroups ≠ 0 then
    .error (valueError "n_experts must be positive and divisible by n_groups")
  else if targets = [] ∨ (targets.any fun t => decide (t ≤ 0)) ∨
      targets ≠ targets.toFinset.sort then
    .error (valueError "targets must be unique positive integers in increasing order")
  else if maxPerLayer ≤ 0 ∨ maxPerGroup ≤ 0 then
    .error (valueError "mask caps must be positive")
  else
    let order := (expertRows layers nExperts table).mergeSort fun a b => reapKey a ≤ reapKey b
    let maxTarget := targets.max?.getD 0
    let s := reapLoop (nExperts / nGroups) maxPerLayer maxPerGroup maxTarget targets order
      ⟨[], [], [], []⟩
    if (s.chosen.length : Int) < maxTarget then
      .error ⟨.value, text "mask caps permit only " ++ strInt s.chosen.length ++
        text " slots, below max target " ++ strInt maxTarget⟩
    else .ok s.snapshots

end Selection

/-! ### The loop is greedy -/

def slot {K : Type*} (r : ReapRow K) : Int × Int := (r.layer, r.expert)

/-- The router group of a slot, with its layer. -/
def groupOf (perGroup : Int) (x : Int × Int) : Int × Int := (x.1, x.2 / perGroup)

theorem groupOf_refines (perGroup : Int) (a b : Int × Int)
    (h : groupOf perGroup a = groupOf perGroup b) : a.1 = b.1 :=
  (Prod.ext_iff.mp h).1

section Loop
variable {K : Type*} {perGroup maxPerLayer maxPerGroup maxTarget : Int} {wanted : List Int}

/-- The counters count the chosen slots. -/
structure Counts (perGroup : Int) (s : ReapState K) : Prop where
  layers : ∀ k, usedOf k s.layerUsed =
    ((s.chosen.map slot).toFinset.filter fun x => x.1 = k).card
  groups : ∀ g, usedOf g s.groupUsed =
    ((s.chosen.map slot).toFinset.filter fun x => groupOf perGroup x = g).card

/-- Every wanted size reached so far has its snapshot. -/
def Snapped (wanted : List Int) (s : ReapState K) : Prop :=
  ∀ t, Dict.get t s.snapshots =
    if t ∈ wanted ∧ 0 < t ∧ t ≤ s.chosen.length then some (s.chosen.take t.toNat) else none

theorem usedOf_countUse {κ : Type*} [DecidableEq κ] (k k' : κ) (used : List (κ × Int)) :
    usedOf k (countUse k' used) = usedOf k used + if k' = k then 1 else 0 := by
  unfold usedOf countUse
  split_ifs with h
  · rw [h, Dict.get_modify_self, Option.getD_some]
  · rw [Dict.get_modify_of_ne (Ne.symm h), add_zero]

variable (wanted) in
theorem Counts.choose {s : ReapState K} (h : Counts perGroup s) {row : ReapRow K}
    (hnew : slot row ∉ s.chosen.map slot) : Counts perGroup (chooseRow perGroup wanted row s) := by
  have hset : ((s.chosen ++ [row]).map slot).toFinset =
      insert (slot row) (s.chosen.map slot).toFinset := by
    rw [List.map_append, List.map_singleton, Greedy.toFinset_snoc]
  have hout : slot row ∉ (s.chosen.map slot).toFinset := by rwa [List.mem_toFinset]
  unfold chooseRow
  constructor
  · intro k
    dsimp only
    rw [usedOf_countUse, h.layers, hset, Greedy.card_filter_insert hout, slot]
    split_ifs <;> simp
  · intro g
    dsimp only
    rw [usedOf_countUse, h.groups, hset, Greedy.card_filter_insert hout, slot, groupOf]
    split_ifs <;> simp

variable (perGroup) in
theorem Snapped.choose {s : ReapState K} (h : Snapped wanted s) (row : ReapRow K) :
    Snapped wanted (chooseRow perGroup wanted row s) := by
  intro t
  have hlength : (s.chosen ++ [row]).length = s.chosen.length + 1 := List.length_append
  unfold chooseRow
  dsimp only
  by_cases hnow : t = (s.chosen ++ [row]).length
  · subst hnow
    have htake : (s.chosen ++ [row]).take ((s.chosen ++ [row]).length : Int).toNat =
        s.chosen ++ [row] := List.take_of_length_le (by omega)
    by_cases hwanted : ((s.chosen ++ [row]).length : Int) ∈ wanted
    · rw [if_pos hwanted, Dict.get_set_self, if_pos ⟨hwanted, by omega, le_refl _⟩, htake]
    · rw [if_neg hwanted, h, if_neg (fun hc => hwanted hc.1), if_neg (fun hc => hwanted hc.1)]
  · have hold : Dict.get t (if ((s.chosen ++ [row]).length : Int) ∈ wanted then
        Dict.set ((s.chosen ++ [row]).length : Int) (s.chosen ++ [row]) s.snapshots
        else s.snapshots) = Dict.get t s.snapshots := by
      split_ifs
      · exact Dict.get_set_of_ne hnow
      · rfl
    rw [hold, h]
    by_cases hc : t ∈ wanted ∧ 0 < t ∧ t ≤ s.chosen.length
    · rw [if_pos hc, if_pos ⟨hc.1, hc.2.1, by omega⟩,
        List.take_append_of_le_length (by omega)]
    · rw [if_neg hc, if_neg]
      intro hlater
      exact hc ⟨hlater.1, hlater.2.1, by omega⟩

variable (maxPerLayer maxPerGroup) in
/-- The tests of the loop are those of the two caps. -/
theorem Counts.test {s : ReapState K} (h : Counts perGroup s) (row : ReapRow K) :
    Greedy.capTest Prod.fst (groupOf perGroup) maxPerLayer.toNat maxPerGroup.toNat
        (s.chosen.map slot) (slot row) = true ↔
      ¬ maxPerLayer ≤ usedOf row.layer s.layerUsed ∧
        ¬ maxPerGroup ≤ usedOf (row.layer, row.expert / perGroup) s.groupUsed := by
  rw [h.layers, h.groups, Greedy.capTest, Bool.and_eq_true, decide_eq_true_eq, decide_eq_true_eq,
    not_le, not_le]
  exact and_congr (by rw [Int.lt_toNat]; rfl) (by rw [Int.lt_toNat]; rfl)

variable (maxPerLayer maxPerGroup) in
/-- The slots that the loop chooses are the first that the greedy choice takes. -/
theorem reapLoop_spec (order : List (ReapRow K)) {s : ReapState K} (hcounts : Counts perGroup s)
    (hsnap : Snapped wanted s) (hnodup : (s.chosen.map slot ++ order.map slot).Nodup)
    (hroom : (s.chosen.length : Int) < maxTarget) :
    ((reapLoop perGroup maxPerLayer maxPerGroup maxTarget wanted order s).chosen.map slot =
      (Greedy.greedy (Greedy.capTest Prod.fst (groupOf perGroup) maxPerLayer.toNat
        maxPerGroup.toNat) (order.map slot) (s.chosen.map slot)).take maxTarget.toNat) ∧
    Snapped wanted (reapLoop perGroup maxPerLayer maxPerGroup maxTarget wanted order s) ∧
    ∀ r ∈ (reapLoop perGroup maxPerLayer maxPerGroup maxTarget wanted order s).chosen,
      r ∈ s.chosen ∨ r ∈ order := by
  induction order generalizing s with
  | nil =>
    refine ⟨?_, hsnap, fun r hr => Or.inl hr⟩
    refine (List.take_of_length_le ?_).symm
    change (s.chosen.map slot).length ≤ _
    rw [List.length_map]
    omega
  | cons row order ih =>
    have htest := hcounts.test maxPerLayer maxPerGroup row
    have hskip : (s.chosen.map slot ++ order.map slot).Nodup :=
      hnodup.sublist ((List.sublist_cons_self _ _).append_left _)
    unfold reapLoop
    rw [List.map_cons, Greedy.greedy]
    by_cases hlayer : maxPerLayer ≤ usedOf row.layer s.layerUsed
    · rw [if_pos hlayer, if_neg (fun hok => (htest.mp hok).1 hlayer)]
      obtain ⟨hslots, hsnaps, hfrom⟩ := ih hcounts hsnap hskip hroom
      exact ⟨hslots, hsnaps, fun r hr => (hfrom r hr).imp_right (List.mem_cons_of_mem _)⟩
    rw [if_neg hlayer]
    by_cases hgroup : maxPerGroup ≤ usedOf (row.layer, row.expert / perGroup) s.groupUsed
    · rw [if_pos hgroup, if_neg (fun hok => (htest.mp hok).2 hgroup)]
      obtain ⟨hslots, hsnaps, hfrom⟩ := ih hcounts hsnap hskip hroom
      exact ⟨hslots, hsnaps, fun r hr => (hfrom r hr).imp_right (List.mem_cons_of_mem _)⟩
    rw [if_neg hgroup, if_pos (htest.mpr ⟨hlayer, hgroup⟩)]
    have hnew : slot row ∉ s.chosen.map slot := fun hmem =>
      (List.disjoint_of_nodup_append hnodup) hmem List.mem_cons_self
    have hcounts' := hcounts.choose wanted hnew
    have hsnap' := hsnap.choose perGroup row
    have hslots' : (chooseRow perGroup wanted row s).chosen.map slot =
        s.chosen.map slot ++ [slot row] := by
      rw [chooseRow, List.map_append, List.map_singleton]
    have hmore : (chooseRow perGroup wanted row s).chosen.length = s.chosen.length + 1 :=
      List.length_append
    dsimp only
    rw [← hslots']
    by_cases hfull : maxTarget ≤ (chooseRow perGroup wanted row s).chosen.length
    · rw [if_pos hfull]
      refine ⟨?_, hsnap', fun r hr => ?_⟩
      · have hpre := List.prefix_iff_eq_take.mp (Greedy.prefix_greedy (Greedy.capTest Prod.fst
          (groupOf perGroup) maxPerLayer.toNat maxPerGroup.toNat) (order.map slot)
          ((chooseRow perGroup wanted row s).chosen.map slot))
        rw [List.length_map, show (chooseRow perGroup wanted row s).chosen.length =
          maxTarget.toNat by omega] at hpre
        exact hpre
      · rcases List.mem_append.mp hr with hold | hlast
        · exact Or.inl hold
        · exact Or.inr (List.mem_cons.mpr (Or.inl (List.mem_singleton.mp hlast)))
    · rw [if_neg hfull]
      have hnodup' : ((chooseRow perGroup wanted row s).chosen.map slot ++ order.map slot).Nodup := by
        rw [hslots', List.append_assoc, List.singleton_append]
        exact hnodup
      obtain ⟨hslots, hsnaps, hfrom⟩ := ih hcounts' hsnap' hnodup' (by omega)
      refine ⟨hslots, hsnaps, fun r hr => ?_⟩
      rcases hfrom r hr with hchosen | hlater
      · rcases List.mem_append.mp hchosen with hold | hlast
        · exact Or.inl hold
        · exact Or.inr (List.mem_cons.mpr (Or.inl (List.mem_singleton.mp hlast)))
      · exact Or.inr (List.mem_cons_of_mem _ hlater)

end Loop

/-! ### The order -/

section Order
variable {K : Type*} {layers : Finset Int} {nExperts : Int} {table : Int → Int → ReapScore K}

/-- The slots of the table. -/
noncomputable def tableSlots (layers : Finset Int) (nExperts : Int) : Finset (Int × Int) :=
  layers ×ˢ Finset.Ico 0 nExperts

def slotScore (table : Int → Int → ReapScore K) (x : Int × Int) : K := (table x.1 x.2).finalScore

theorem mem_expertRows {r : ReapRow K} :
    r ∈ expertRows layers nExperts table ↔
      slot r ∈ tableSlots layers nExperts ∧ r.score = table r.layer r.expert := by
  unfold expertRows tableSlots slot
  rw [List.mem_flatMap]
  simp only [Finset.mem_sort, List.mem_map, List.mem_range, Finset.mem_product, Finset.mem_Ico]
  constructor
  · rintro ⟨layer, hlayer, expert, hexpert, rfl⟩
    exact ⟨⟨hlayer, Int.natCast_nonneg expert, Int.lt_toNat.mp hexpert⟩, rfl⟩
  · rintro ⟨⟨hlayer, hlow, hhigh⟩, hscore⟩
    refine ⟨r.layer, hlayer, r.expert.toNat, by omega, ?_⟩
    rw [Int.toNat_of_nonneg hlow, ← hscore]

theorem expertRows_slots_nodup : ((expertRows layers nExperts table).map slot).Nodup := by
  unfold expertRows
  rw [List.map_flatMap, List.nodup_flatMap]
  constructor
  · intro layer _
    rw [List.map_map]
    refine List.Nodup.map (fun a b hab => ?_) List.nodup_range
    exact Int.ofNat_inj.mp (Prod.ext_iff.mp hab).2
  · refine List.Pairwise.imp (fun {a b} hne => ?_) (Finset.sort_nodup layers _)
    rw [Function.onFun, List.disjoint_left]
    intro x hxa hxb
    simp only [List.map_map, List.mem_map, List.mem_range] at hxa hxb
    obtain ⟨_, -, rfl⟩ := hxa
    obtain ⟨_, -, heq⟩ := hxb
    exact hne (Prod.ext_iff.mp heq).1.symm

variable [LinearOrder K]

def reapOrder (layers : Finset Int) (nExperts : Int) (table : Int → Int → ReapScore K) :
    List (ReapRow K) :=
  (expertRows layers nExperts table).mergeSort fun a b => reapKey a ≤ reapKey b

theorem reapOrder_slots_nodup : ((reapOrder layers nExperts table).map slot).Nodup :=
  ((List.mergeSort_perm _ _).map slot).nodup_iff.mpr expertRows_slots_nodup

theorem mem_reapOrder {r : ReapRow K} :
    r ∈ reapOrder layers nExperts table ↔
      slot r ∈ tableSlots layers nExperts ∧ r.score = table r.layer r.expert :=
  List.mem_mergeSort.trans mem_expertRows

theorem mem_reapOrder_slots {x : Int × Int} :
    x ∈ (reapOrder layers nExperts table).map slot ↔ x ∈ tableSlots layers nExperts := by
  rw [List.mem_map]
  constructor
  · rintro ⟨r, hr, rfl⟩
    exact (mem_reapOrder.mp hr).1
  · intro hx
    exact ⟨⟨x.1, x.2, table x.1 x.2⟩, mem_reapOrder.mpr ⟨hx, rfl⟩, rfl⟩

/-- The final score comes first in the key. -/
theorem reapOrder_sorted : ((reapOrder layers nExperts table).map slot).Pairwise
    fun a b => slotScore table a ≤ slotScore table b := by
  have hkeys : (reapOrder layers nExperts table).Pairwise fun a b => reapKey a ≤ reapKey b := by
    refine (List.pairwise_mergeSort ?_ ?_ (expertRows layers nExperts table)).imp of_decide_eq_true
    · intro a b c hab hbc
      exact decide_eq_true ((of_decide_eq_true hab).trans (of_decide_eq_true hbc))
    · intro a b
      rw [Bool.or_eq_true, decide_eq_true_eq, decide_eq_true_eq]
      exact le_total _ _
  rw [List.pairwise_map]
  refine hkeys.imp_of_mem fun {a b} ha hb hle => ?_
  have hscore := Prod.Lex.monotone_fst _ _ hle
  unfold slotScore slot
  rw [← (mem_reapOrder.mp ha).2, ← (mem_reapOrder.mp hb).2]
  exact hscore

end Order

/-! ### The masks -/

/-- Neither cap is exceeded. -/
def RespectsCaps (perGroup maxPerLayer maxPerGroup : Int) (S : Finset (Int × Int)) : Prop :=
  (∀ layer, ((S.filter fun x => x.1 = layer).card : Int) ≤ maxPerLayer) ∧
    ∀ g, ((S.filter fun x => groupOf perGroup x = g).card : Int) ≤ maxPerGroup

theorem respectsCaps_iff {perGroup maxPerLayer maxPerGroup : Int} {S : Finset (Int × Int)}
    (hlayer : 0 < maxPerLayer) (hgroup : 0 < maxPerGroup) :
    RespectsCaps perGroup maxPerLayer maxPerGroup S ↔
      Greedy.Capped Prod.fst (groupOf perGroup) maxPerLayer.toNat maxPerGroup.toNat S := by
  constructor
  · rintro ⟨hl, hg⟩
    exact ⟨fun k => (Int.le_toNat hlayer.le).mpr (hl k),
      fun g => (Int.le_toNat hgroup.le).mpr (hg g)⟩
  · intro h
    exact ⟨fun k => (Int.le_toNat hlayer.le).mp (h.layers k),
      fun g => (Int.le_toNat hgroup.le).mp (h.groups g)⟩

def maskSlots {K : Type*} (mask : List (ReapRow K)) : Finset (Int × Int) := (mask.map slot).toFinset

/-- A mask of `t` slots of the table within both caps, of the least total score among all. -/
structure LeastMask {K : Type*} [AddCommMonoid K] [LE K] (slots : Finset (Int × Int))
    (table : Int → Int → ReapScore K) (perGroup maxPerLayer maxPerGroup t : Int)
    (mask : List (ReapRow K)) : Prop where
  rows : ∀ r ∈ mask, r.score = table r.layer r.expert
  within : maskSlots mask ⊆ slots
  length : (mask.length : Int) = t
  card : ((maskSlots mask).card : Int) = t
  caps : RespectsCaps perGroup maxPerLayer maxPerGroup (maskSlots mask)
  least : ∀ S ⊆ slots, RespectsCaps perGroup maxPerLayer maxPerGroup S → (S.card : Int) = t →
    ∑ x ∈ maskSlots mask, slotScore table x ≤ ∑ x ∈ S, slotScore table x

section Masks
variable {K : Type*} [LinearOrder K]
variable {layers : Finset Int} {nExperts nGroups : Int} {table : Int → Int → ReapScore K}
variable {targets : List Int} {maxPerLayer maxPerGroup last : Int}

/-- The test of the two caps. -/
abbrev roomTest (perGroup maxPerLayer maxPerGroup : Int) : List (Int × Int) → Int × Int → Bool :=
  Greedy.capTest Prod.fst (groupOf perGroup) maxPerLayer.toNat maxPerGroup.toNat

theorem roomTest_tests (perGroup maxPerLayer maxPerGroup : Int) :
    Greedy.Tests (Greedy.capMatroid Prod.fst (groupOf perGroup) maxPerLayer.toNat
      maxPerGroup.toNat (groupOf_refines perGroup)) (roomTest perGroup maxPerLayer maxPerGroup) :=
  Greedy.capTest_tests (groupOf_refines perGroup)

/-- The first slots of the greedy choice are within the caps. -/
theorem greedy_take_respects (perGroup : Int) (hlayer : 0 < maxPerLayer)
    (hgroup : 0 < maxPerGroup) (k : Nat) :
    RespectsCaps perGroup maxPerLayer maxPerGroup ((Greedy.greedy (roomTest perGroup maxPerLayer
      maxPerGroup) ((reapOrder layers nExperts table).map slot) []).take k).toFinset := by
  have hempty : (Greedy.capMatroid Prod.fst (groupOf perGroup) maxPerLayer.toNat
      maxPerGroup.toNat (groupOf_refines perGroup)).Indep
        ((([] : List (Int × Int)).toFinset : Finset (Int × Int)) : Set (Int × Int)) := by simp
  have hall := Greedy.greedy_indep (roomTest_tests perGroup maxPerLayer maxPerGroup) hempty
    (show ([] ++ (reapOrder layers nExperts table).map slot).Nodup from reapOrder_slots_nodup)
  rw [Greedy.capMatroid_indep] at hall
  rw [respectsCaps_iff hlayer hgroup]
  refine hall.subset fun x hx => ?_
  rw [List.mem_toFinset] at hx ⊢
  exact List.mem_of_mem_take hx

variable (table) in
/-- A set within the caps is no larger than the greedy choice. -/
theorem card_le_of_respects {perGroup : Int} (hlayer : 0 < maxPerLayer) (hgroup : 0 < maxPerGroup)
    {S : Finset (Int × Int)} (hsub : S ⊆ tableSlots layers nExperts)
    (hS : RespectsCaps perGroup maxPerLayer maxPerGroup S) :
    S.card ≤ (Greedy.greedy (roomTest perGroup maxPerLayer maxPerGroup)
      ((reapOrder layers nExperts table).map slot) []).length := by
  rw [respectsCaps_iff hlayer hgroup, ← Greedy.capMatroid_indep (groupOf_refines perGroup)] at hS
  exact Greedy.card_le_greedy (roomTest_tests _ _ _) reapOrder_slots_nodup hS
    fun x hx => mem_reapOrder_slots.mpr (hsub hx)

/-- With valid experts and targets only the check of the caps is left. -/
theorem reapMasks_checked (hexperts : 0 < nExperts) (hgroups : 0 < nGroups)
    (hdiv : nGroups ∣ nExperts) (hpos : ∀ t ∈ targets, 0 < t) (hinc : targets.Pairwise (· < ·))
    (hlast : IsGreatest {t | t ∈ targets} last) :
    reapMasks layers nExperts nGroups table targets maxPerLayer maxPerGroup =
      if maxPerLayer ≤ 0 ∨ maxPerGroup ≤ 0 then .error (valueError "mask caps must be positive")
      else
        let s := reapLoop (nExperts / nGroups) maxPerLayer maxPerGroup last targets
          (reapOrder layers nExperts table) ⟨[], [], [], []⟩
        if (s.chosen.length : Int) < last then
          .error ⟨.value, text "mask caps permit only " ++ strInt s.chosen.length ++
            text " slots, below max target " ++ strInt last⟩
        else .ok s.snapshots := by
  have hmax : targets.max?.getD 0 = last := by
    rw [List.max?_eq_some_iff.mpr ⟨hlast.1, fun b hb => hlast.2 hb⟩, Option.getD_some]
  have hany : ¬ (targets.any fun t => decide (t ≤ 0)) = true := by
    rw [List.any_eq_true]
    rintro ⟨t, ht, hle⟩
    exact absurd (hpos t ht) (not_lt.mpr (of_decide_eq_true hle))
  have hsorted : targets = targets.toFinset.sort :=
    ((List.toFinset_sort (r := (· ≤ ·)) (hinc.imp ne_of_lt)).mpr (hinc.imp le_of_lt)).symm
  have hchecks : ¬ (targets = [] ∨ (targets.any fun t => decide (t ≤ 0)) = true ∨
      targets ≠ targets.toFinset.sort) := by
    rintro (hnil | hbad | hne)
    · have hmem := hlast.1
      rw [hnil] at hmem
      exact List.not_mem_nil hmem
    · exact hany hbad
    · exact hne hsorted
  have hmod := Int.emod_eq_zero_of_dvd hdiv
  unfold reapMasks
  rw [if_neg (by omega), if_neg hchecks, hmax]
  rfl

variable (layers table) in
/-- The selection after its checks. -/
theorem reapMasks_run (hexperts : 0 < nExperts) (hgroups : 0 < nGroups)
    (hdiv : nGroups ∣ nExperts) (hpos : ∀ t ∈ targets, 0 < t) (hinc : targets.Pairwise (· < ·))
    (hlast : IsGreatest {t | t ∈ targets} last) (hlayer : 0 < maxPerLayer)
    (hgroup : 0 < maxPerGroup) :
    ∃ s : ReapState K,
      s.chosen.map slot = (Greedy.greedy (roomTest (nExperts / nGroups) maxPerLayer maxPerGroup)
        ((reapOrder layers nExperts table).map slot) []).take last.toNat ∧
      Snapped targets s ∧ (∀ r ∈ s.chosen, r ∈ reapOrder layers nExperts table) ∧
      reapMasks layers nExperts nGroups table targets maxPerLayer maxPerGroup =
        if (s.chosen.length : Int) < last then
          .error ⟨.value, text "mask caps permit only " ++ strInt s.chosen.length ++
            text " slots, below max target " ++ strInt last⟩
        else .ok s.snapshots := by
  have hstart : Counts (K := K) (nExperts / nGroups) ⟨[], [], [], []⟩ := ⟨fun _ => rfl, fun _ => rfl⟩
  have hsnap : Snapped (K := K) targets ⟨[], [], [], []⟩ := by
    intro t
    refine (if_neg ?_).symm
    rintro ⟨-, hlow, hhigh⟩
    exact absurd (hlow.trans_le hhigh) (by simp)
  obtain ⟨hslots, hsnaps, hfrom⟩ := reapLoop_spec maxPerLayer maxPerGroup
    (reapOrder layers nExperts table) hstart hsnap reapOrder_slots_nodup (hpos last hlast.1)
  refine ⟨_, hslots, hsnaps, fun r hr => (hfrom r hr).resolve_left List.not_mem_nil, ?_⟩
  rw [reapMasks_checked hexperts hgroups hdiv hpos hinc hlast, if_neg (by omega)]

variable [AddCommMonoid K] [IsOrderedAddMonoid K]

/-- The first rows chosen are a least mask of their number. -/
theorem leastMask_take {perGroup : Int} (hlayer : 0 < maxPerLayer) (hgroup : 0 < maxPerGroup)
    {chosen : List (ReapRow K)} {m : Nat}
    (hrows : ∀ r ∈ chosen, r ∈ reapOrder layers nExperts table)
    (hslots : chosen.map slot = (Greedy.greedy (roomTest perGroup maxPerLayer maxPerGroup)
      ((reapOrder layers nExperts table).map slot) []).take m)
    {t : Int} (hpos : 0 < t) (ht : t ≤ chosen.length) :
    LeastMask (tableSlots layers nExperts) table perGroup maxPerLayer maxPerGroup t
      (chosen.take t.toNat) := by
  have hm : chosen.length ≤ m := by
    have h := congrArg List.length hslots
    rw [List.length_map, List.length_take] at h
    omega
  have htake : (chosen.take t.toNat).map slot =
      (Greedy.greedy (roomTest perGroup maxPerLayer maxPerGroup)
        ((reapOrder layers nExperts table).map slot) []).take t.toNat := by
    rw [List.map_take, hslots, List.take_take, Nat.min_eq_left (by omega)]
  have hsublist := (List.take_sublist t.toNat _).trans (Greedy.greedy_sublist_order
    (roomTest perGroup maxPerLayer maxPerGroup)
    ((reapOrder layers nExperts table).map slot))
  have hnodup : ((chosen.take t.toNat).map slot).Nodup := by
    rw [htake]
    exact reapOrder_slots_nodup.sublist hsublist
  have hlength : ((chosen.take t.toNat).length : Int) = t := by
    rw [List.length_take]
    omega
  have hcard : ((maskSlots (chosen.take t.toNat)).card : Int) = t := by
    rw [maskSlots, List.toFinset_card_of_nodup hnodup, List.length_map, hlength]
  constructor
  · exact fun r hr => (mem_reapOrder.mp (hrows r (List.mem_of_mem_take hr))).2
  · intro x hx
    rw [maskSlots, List.mem_toFinset, htake] at hx
    exact mem_reapOrder_slots.mp (hsublist.subset hx)
  · exact hlength
  · exact hcard
  · rw [maskSlots, htake]
    exact greedy_take_respects perGroup hlayer hgroup t.toNat
  · intro S hsub hS hsize
    rw [respectsCaps_iff hlayer hgroup, ← Greedy.capMatroid_indep (groupOf_refines perGroup)] at hS
    have hle := Greedy.greedy_take_lightest (roomTest_tests perGroup maxPerLayer maxPerGroup)
      (@reapOrder_slots_nodup K layers nExperts table _)
      reapOrder_sorted hS fun x hx => mem_reapOrder_slots.mpr (hsub hx)
    rw [show S.card = t.toNat by omega, ← htake] at hle
    rwa [maskSlots, List.sum_toFinset _ hnodup]

/-- Every target has a least mask of its size, the masks are nested, and the selection raises
if and only if no set of the largest size respects the caps. -/
theorem reapMasks_least (hexperts : 0 < nExperts) (hgroups : 0 < nGroups)
    (hdiv : nGroups ∣ nExperts) (hpos : ∀ t ∈ targets, 0 < t) (hinc : targets.Pairwise (· < ·))
    (hlast : IsGreatest {t | t ∈ targets} last) :
    (∀ masks, reapMasks layers nExperts nGroups table targets maxPerLayer maxPerGroup =
        .ok masks →
      (∀ t ∈ targets, ∃ mask, Dict.get t masks = some mask ∧
        LeastMask (tableSlots layers nExperts) table (nExperts / nGroups) maxPerLayer maxPerGroup
          t mask) ∧
      ∀ t ∈ targets, ∀ u ∈ targets, t ≤ u → ∀ small large, Dict.get t masks = some small →
        Dict.get u masks = some large → maskSlots small ⊆ maskSlots large) ∧
    ((∃ e, reapMasks layers nExperts nGroups table targets maxPerLayer maxPerGroup = .error e) ↔
      ¬ ∃ S ⊆ tableSlots layers nExperts,
        RespectsCaps (nExperts / nGroups) maxPerLayer maxPerGroup S ∧ (S.card : Int) = last) := by
  have hlastpos := hpos last hlast.1
  by_cases hcaps : 0 < maxPerLayer ∧ 0 < maxPerGroup
  · obtain ⟨s, hslots, hsnaps, hrows, hrun⟩ := reapMasks_run layers table
      hexperts hgroups hdiv hpos hinc hlast hcaps.1 hcaps.2
    rw [hrun]
    have hlength := congrArg List.length hslots
    rw [List.length_map, List.length_take] at hlength
    by_cases hshort : (s.chosen.length : Int) < last
    · rw [if_pos hshort]
      refine ⟨fun masks hmasks => absurd hmasks (by simp), fun _ => ?_, fun _ => ⟨_, rfl⟩⟩
      rintro ⟨S, hsub, hS, hcard⟩
      have hle := card_le_of_respects table hcaps.1 hcaps.2 hsub hS
      omega
    · rw [if_neg hshort]
      have hget : ∀ t ∈ targets, Dict.get t s.snapshots = some (s.chosen.take t.toNat) := by
        intro t ht
        have hle : t ≤ last := hlast.2 ht
        rw [hsnaps t, if_pos ⟨ht, hpos t ht, by omega⟩]
      have hleast : ∀ t ∈ targets, LeastMask (tableSlots layers nExperts) table
          (nExperts / nGroups) maxPerLayer maxPerGroup t (s.chosen.take t.toNat) := by
        intro t ht
        have hle : t ≤ last := hlast.2 ht
        exact leastMask_take hcaps.1 hcaps.2 hrows hslots (hpos t ht) (by omega)
      constructor
      · intro masks hmasks
        obtain rfl : s.snapshots = masks := Except.ok.inj hmasks
        refine ⟨fun t ht => ⟨_, hget t ht, hleast t ht⟩, ?_⟩
        intro t ht u hu htu small large hsmall hlarge x hx
        obtain rfl := Option.some.inj ((hget t ht).symm.trans hsmall)
        obtain rfl := Option.some.inj ((hget u hu).symm.trans hlarge)
        rw [maskSlots, List.mem_toFinset] at hx ⊢
        exact ((List.take_prefix_take_left (by omega)).map slot).subset hx
      · refine ⟨?_, fun hnone => absurd ?_ hnone⟩
        · rintro ⟨e, he⟩
          exact absurd he (by simp)
        · have hmask := hleast last hlast.1
          exact ⟨_, hmask.within, hmask.caps, hmask.card⟩
  · -- with a cap that is not positive not one slot may be chosen
    have hraises : reapMasks layers nExperts nGroups table targets maxPerLayer maxPerGroup =
        .error (valueError "mask caps must be positive") := by
      rw [reapMasks_checked hexperts hgroups hdiv hpos hinc hlast, if_pos (by omega)]
    rw [hraises]
    refine ⟨fun masks hmasks => absurd hmasks (by simp), fun _ => ?_, fun _ => ⟨_, rfl⟩⟩
    rintro ⟨S, -, ⟨hl, hg⟩, hcard⟩
    obtain ⟨x, hx⟩ : S.Nonempty := Finset.card_pos.mp (by omega)
    have hlx : 0 < (S.filter fun y => y.1 = x.1).card :=
      Finset.card_pos.mpr ⟨x, Finset.mem_filter.mpr ⟨hx, rfl⟩⟩
    have hgx : 0 < (S.filter fun y => groupOf (nExperts / nGroups) y =
        groupOf (nExperts / nGroups) x).card :=
      Finset.card_pos.mpr ⟨x, Finset.mem_filter.mpr ⟨hx, rfl⟩⟩
    have := hl x.1
    have := hg (groupOf (nExperts / nGroups) x)
    omega

end Masks

/-- One layer of two groups of two; the caps leave one slot in each group. -/
theorem reapMasks_least_twoGroups :
    (∀ masks, reapMasks {1} 4 2 (fun _ e => ⟨(e : Rat), 0, 0⟩) [1, 2] 2 1 = .ok masks →
      (∀ t ∈ [1, 2], ∃ mask, Dict.get t masks = some mask ∧
        LeastMask (tableSlots {1} 4) (fun _ e => ⟨(e : Rat), 0, 0⟩) (4 / 2) 2 1 t mask) ∧
      ∀ t ∈ [1, 2], ∀ u ∈ [1, 2], t ≤ u → ∀ small large, Dict.get t masks = some small →
        Dict.get u masks = some large → maskSlots small ⊆ maskSlots large) ∧
    ((∃ e, reapMasks {1} 4 2 (fun _ e => ⟨(e : Rat), 0, 0⟩) [1, 2] 2 1 = .error e) ↔
      ¬ ∃ S ⊆ tableSlots {1} 4, RespectsCaps (4 / 2) 2 1 S ∧ (S.card : Int) = 2) :=
  reapMasks_least (by decide) (by decide) (by decide) (by decide) (by decide)
    ⟨by decide, fun t ht => (by decide : ∀ t ∈ ([1, 2] : List Int), t ≤ 2) t ht⟩

end Kvl.Reap

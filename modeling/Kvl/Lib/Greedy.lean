import Mathlib.Algebra.Order.BigOperators.Group.Finset
import Mathlib.Algebra.Order.BigOperators.Group.List
import Mathlib.Algebra.BigOperators.Group.Finset.Basic
import Mathlib.Algebra.Order.Monoid.Defs
import Mathlib.Combinatorics.Matroid.IndepAxioms
import Mathlib.Combinatorics.Matroid.Minor.Restrict

/-!
# The greedy choice in a matroid

Elements are tried in one order and kept while the set stays independent. On every
prefix of the order the kept set is as large as any independent set there, so in
an order of rising weights its first `k` elements are a lightest set of `k`.

The sets that respect two caps of which one refines the other form a matroid.
-/

namespace Kvl.Greedy

set_option autoImplicit false

variable {α : Type*}

/-- What is chosen from the order, after what was chosen before. -/
def greedy (ok : List α → α → Bool) : List α → List α → List α
  | [], chosen => chosen
  | x :: order, chosen => greedy ok order (if ok chosen x then chosen ++ [x] else chosen)

section Runs
variable (ok : List α → α → Bool)

theorem greedy_append (first rest chosen : List α) :
    greedy ok (first ++ rest) chosen = greedy ok rest (greedy ok first chosen) := by
  induction first generalizing chosen with
  | nil => rfl
  | cons x first ih => exact ih _

theorem prefix_greedy (order chosen : List α) : chosen <+: greedy ok order chosen := by
  induction order generalizing chosen with
  | nil => exact List.prefix_refl chosen
  | cons x order ih =>
    unfold greedy
    split_ifs
    · exact (List.prefix_append chosen [x]).trans (ih _)
    · exact ih _

/-- The chosen elements stand in the order in which they were tried. -/
theorem greedy_sublist (order chosen : List α) :
    ∃ kept, kept.Sublist order ∧ greedy ok order chosen = chosen ++ kept := by
  induction order generalizing chosen with
  | nil => exact ⟨[], List.Sublist.slnil, (List.append_nil chosen).symm⟩
  | cons x order ih =>
    unfold greedy
    split_ifs
    · obtain ⟨kept, hkept, heq⟩ := ih (chosen ++ [x])
      refine ⟨x :: kept, hkept.cons_cons x, ?_⟩
      rw [heq, List.append_assoc, List.singleton_append]
    · obtain ⟨kept, hkept, heq⟩ := ih chosen
      exact ⟨kept, hkept.cons x, heq⟩

theorem greedy_sublist_order (order : List α) : (greedy ok order []).Sublist order := by
  obtain ⟨kept, hkept, heq⟩ := greedy_sublist ok order []
  rw [heq]
  exact hkept

end Runs

section Ranks
variable [DecidableEq α] {M : Matroid α} {ok : List α → α → Bool}

/-- The test accepts exactly the elements that keep the chosen ones independent. -/
def Tests (M : Matroid α) (ok : List α → α → Bool) : Prop :=
  ∀ chosen x, M.Indep (chosen.toFinset : Set α) → x ∉ chosen →
    (ok chosen x = true ↔ M.Indep ((insert x chosen.toFinset : Finset α) : Set α))

theorem toFinset_snoc (chosen : List α) (x : α) :
    (chosen ++ [x]).toFinset = insert x chosen.toFinset := by
  ext y
  simp

theorem greedy_indep (hok : Tests M ok) {order chosen : List α}
    (hindep : M.Indep (chosen.toFinset : Set α)) (hnodup : (chosen ++ order).Nodup) :
    M.Indep ((greedy ok order chosen).toFinset : Set α) := by
  induction order generalizing chosen with
  | nil => exact hindep
  | cons x order ih =>
    have hnew : x ∉ chosen := fun hmem =>
      (List.disjoint_of_nodup_append hnodup) hmem List.mem_cons_self
    unfold greedy
    split_ifs with htest
    · refine ih ?_ (by rwa [List.append_assoc, List.singleton_append])
      rw [toFinset_snoc]
      exact (hok chosen x hindep hnew).mp htest
    · exact ih hindep (hnodup.sublist ((List.sublist_cons_self x order).append_left chosen))

/-- An element of the order that could still be added has been chosen. -/
theorem greedy_maximal (hok : Tests M ok) {order chosen : List α} {x : α}
    (hindep : M.Indep (chosen.toFinset : Set α)) (hnodup : (chosen ++ order).Nodup)
    (hx : x ∈ order)
    (hadd : M.Indep ((insert x (greedy ok order chosen).toFinset : Finset α) : Set α)) :
    x ∈ greedy ok order chosen := by
  obtain ⟨first, rest, rfl⟩ := List.append_of_mem hx
  rw [greedy_append] at hadd ⊢
  have hfirst : (chosen ++ first).Nodup := by
    rw [← List.append_assoc] at hnodup
    exact hnodup.of_append_left
  have hmid := greedy_indep hok hindep hfirst
  have hnew : x ∉ greedy ok first chosen := by
    obtain ⟨kept, hkept, heq⟩ := greedy_sublist ok first chosen
    rw [heq]
    intro hmem
    rw [← List.append_assoc] at hnodup
    refine (List.disjoint_of_nodup_append hnodup) ?_ List.mem_cons_self
    exact ((List.Sublist.refl chosen).append hkept).subset hmem
  have hthen : ok (greedy ok first chosen) x = true := by
    refine (hok _ x hmid hnew).mpr (hadd.subset ?_)
    refine Finset.coe_subset.mpr (Finset.insert_subset_insert x ?_)
    intro y hy
    rw [List.mem_toFinset] at hy ⊢
    exact (prefix_greedy ok _ _).subset hy
  have hstep : greedy ok (x :: rest) (greedy ok first chosen) =
      greedy ok rest (greedy ok first chosen ++ [x]) := by
    rw [greedy, if_pos hthen]
  rw [hstep]
  exact (prefix_greedy ok _ _).subset (List.mem_append_right _ List.mem_cons_self)

/-- No independent set of the elements tried is larger than the chosen one. -/
theorem card_le_greedy (hok : Tests M ok) {order : List α} {J : Finset α} (hnodup : order.Nodup)
    (hJ : M.Indep (J : Set α)) (hsub : ∀ x ∈ J, x ∈ order) :
    J.card ≤ (greedy ok order []).length := by
  have hempty : M.Indep ((([] : List α).toFinset : Finset α) : Set α) := by
    simp
  have hchosen := greedy_indep hok hempty (show ([] ++ order).Nodup from hnodup)
  have hcard : (greedy ok order []).toFinset.card = (greedy ok order []).length :=
    List.toFinset_card_of_nodup (hnodup.sublist (greedy_sublist_order ok order))
  by_contra hlt
  rw [not_le, ← hcard] at hlt
  obtain ⟨x, hx, hnew, hadd⟩ := hchosen.augment_finset hJ hlt
  exact hnew (List.mem_toFinset.mpr
    (greedy_maximal hok hempty hnodup (hsub x hx) (by rwa [Finset.coe_insert])))

end Ranks

/-! ### Rising weights -/

theorem sum_filter_mem {E : Type*} [AddCommMonoid E] {w : α → E} [DecidableEq α] {J : Finset α}
    {order : List α} (hnodup : order.Nodup) (hsub : ∀ x ∈ J, x ∈ order) :
    (order.filter fun x => decide (x ∈ J)).toFinset = J ∧
      ((order.filter fun x => decide (x ∈ J)).map w).sum = ∑ x ∈ J, w x := by
  have hset : (order.filter fun x => decide (x ∈ J)).toFinset = J := by
    ext x
    simp only [List.mem_toFinset, List.mem_filter, decide_eq_true_eq]
    exact ⟨fun h => h.2, fun h => ⟨hsub x h, h⟩⟩
  refine ⟨hset, ?_⟩
  rw [← List.sum_toFinset w (hnodup.filter _), hset]

section Weights
variable {E : Type*} [AddCommMonoid E] [LinearOrder E] [IsOrderedAddMonoid E] {w : α → E}

/-- A selection that is ahead on every prefix of an order of rising weights is no heavier,
up to the elements that the other has less, each counted with any bound of the weights. -/
theorem sum_le_of_ahead (S T : α → Bool) {order : List α}
    (hsorted : order.Pairwise fun a b => w a ≤ w b)
    (hahead : ∀ n, (order.take n).countP T ≤ (order.take n).countP S) {W : E}
    (hW : ∀ x ∈ order, w x ≤ W) :
    ((order.filter S).map w).sum ≤
      ((order.filter T).map w).sum + (order.countP S - order.countP T) • W := by
  induction order using List.reverseRecOn generalizing W with
  | nil => simp
  | append_singleton order x ih =>
    have hbefore : ∀ y ∈ order, w y ≤ w x := fun y hy =>
      (List.pairwise_append.mp hsorted).2.2 y hy x List.mem_cons_self
    have hx : w x ≤ W := hW x (List.mem_append_right _ List.mem_cons_self)
    have hfront : ∀ n, (order.take n).countP T ≤ (order.take n).countP S := by
      intro n
      have h := hahead (min n order.length)
      rw [List.take_append_of_le_length (min_le_right n order.length)] at h
      rwa [← List.take_eq_take_min] at h
    have hall : order.countP T ≤ order.countP S := by
      have h := hfront order.length
      rwa [List.take_length] at h
    have hlast : (order ++ [x]).countP T ≤ (order ++ [x]).countP S := by
      have h := hahead (order ++ [x]).length
      rwa [List.take_length] at h
    have hrest := ih (List.pairwise_append.mp hsorted).1 hfront hbefore
    have hpay : (order.countP S - order.countP T) • w x ≤ (order.countP S - order.countP T) • W :=
      nsmul_le_nsmul_right hx _
    rw [List.countP_append, List.countP_append] at hlast ⊢
    rw [List.filter_append, List.filter_append, List.map_append, List.map_append,
      List.sum_append, List.sum_append]
    cases hS : S x with
    | false =>
      cases hT : T x with
      | false => simpa [hS, hT] using hrest.trans (add_le_add_right hpay _)
      | true =>
        -- the other takes one more, which pays for the last that it had less
        obtain ⟨d, hd⟩ : ∃ d, order.countP S - order.countP T = d + 1 := by
          simp [hS, hT] at hlast
          exact ⟨order.countP S - order.countP T - 1, by omega⟩
        rw [hd, succ_nsmul'] at hrest
        have hless : order.countP S - (order.countP T + 1) = d := by omega
        simp [hS, hT, hless]
        calc ((order.filter S).map w).sum ≤ ((order.filter T).map w).sum + (w x + d • w x) := hrest
          _ = ((order.filter T).map w).sum + w x + d • w x := (add_assoc _ _ _).symm
          _ ≤ ((order.filter T).map w).sum + w x + d • W :=
            add_le_add_right (nsmul_le_nsmul_right hx d) _
    | true =>
      cases hT : T x with
      | false =>
        have hmore : order.countP S + 1 - order.countP T =
            order.countP S - order.countP T + 1 := by omega
        simp [hS, hT, hmore, succ_nsmul]
        rw [← add_assoc]
        exact add_le_add (hrest.trans (add_le_add_right hpay _)) hx
      | true =>
        simp [hS, hT]
        rw [add_right_comm]
        exact add_le_add_left (hrest.trans (add_le_add_right hpay _)) _

theorem sum_le_of_ahead_equal (S T : α → Bool) {order : List α}
    (hsorted : order.Pairwise fun a b => w a ≤ w b)
    (hahead : ∀ n, (order.take n).countP T ≤ (order.take n).countP S)
    (heq : order.countP S = order.countP T) :
    ((order.filter S).map w).sum ≤ ((order.filter T).map w).sum := by
  cases order using List.reverseRecOn with
  | nil => exact le_refl _
  | append_singleton order x =>
    have hW : ∀ y ∈ order ++ [x], w y ≤ w x := by
      intro y hy
      rcases List.mem_append.mp hy with hfront | hlast
      · exact (List.pairwise_append.mp hsorted).2.2 y hfront x List.mem_cons_self
      · rw [List.mem_singleton.mp hlast]
    have hle := sum_le_of_ahead S T hsorted hahead hW
    rwa [heq, Nat.sub_self, zero_nsmul, add_zero] at hle

/-- The members of a part that stands in the same order are the part. -/
theorem filter_mem_sublist [DecidableEq α] {part order : List α} (h : part.Sublist order)
    (hnodup : order.Nodup) : order.filter (fun x => decide (x ∈ part)) = part := by
  induction h with
  | slnil => rfl
  | @cons part order x hsub ih =>
    have hx : x ∉ part := fun hmem => (List.nodup_cons.mp hnodup).1 (hsub.subset hmem)
    rw [List.filter_cons_of_neg (by simpa using hx)]
    exact ih (List.nodup_cons.mp hnodup).2
  | @cons_cons part order x hsub ih =>
    rw [List.filter_cons_of_pos (by simp)]
    refine congrArg (List.cons x) ?_
    rw [← ih (List.nodup_cons.mp hnodup).2]
    refine List.filter_congr fun y hy => ?_
    have hne : y ≠ x := fun heq => (List.nodup_cons.mp hnodup).1 (heq ▸ hy)
    simp [hne, hy]

variable [DecidableEq α] {M : Matroid α} {ok : List α → α → Bool}

/-- The first `k` chosen are a lightest independent set of `k` elements of the order. -/
theorem greedy_take_lightest (hok : Tests M ok) {order : List α} (hnodup : order.Nodup)
    (hsorted : order.Pairwise fun a b => w a ≤ w b) {J : Finset α} (hJ : M.Indep (J : Set α))
    (hsub : ∀ x ∈ J, x ∈ order) :
    (((greedy ok order []).take J.card).map w).sum ≤ ∑ x ∈ J, w x := by
  have hchosen : ((greedy ok order []).take J.card).Sublist order :=
    (List.take_sublist _ _).trans (greedy_sublist_order ok order)
  have hk : J.card ≤ (greedy ok order []).length := card_le_greedy hok hnodup hJ hsub
  obtain ⟨hset, hsum⟩ := sum_filter_mem (w := w) hnodup hsub
  have hahead : ∀ n, (order.take n).countP (fun x => decide (x ∈ J)) ≤
      (order.take n).countP (fun x => decide (x ∈ (greedy ok order []).take J.card)) := by
    intro n
    have hfront : (order.take n).Nodup := hnodup.sublist (List.take_sublist n order)
    have hpart : ((order.take n).filter fun x => decide (x ∈ J)).toFinset ⊆ J := by
      intro x hx
      simp only [List.mem_toFinset, List.mem_filter, decide_eq_true_eq] at hx
      exact hx.2
    have hcount : ((order.take n).filter fun x => decide (x ∈ J)).toFinset.card =
        (order.take n).countP fun x => decide (x ∈ J) := by
      rw [List.toFinset_card_of_nodup (hfront.filter _), List.countP_eq_length_filter]
    have hrank : (order.take n).countP (fun x => decide (x ∈ J)) ≤
        (greedy ok (order.take n) []).length := by
      rw [← hcount]
      refine card_le_greedy hok hfront (hJ.subset (Finset.coe_subset.mpr hpart)) ?_
      intro x hx
      simp only [List.mem_toFinset, List.mem_filter] at hx
      exact hx.1
    have hsize : (order.take n).countP (fun x => decide (x ∈ J)) ≤ J.card := by
      rw [← hcount]
      exact Finset.card_le_card hpart
    have hpre : greedy ok (order.take n) [] <+: greedy ok order [] := by
      have h := prefix_greedy ok (order.drop n) (greedy ok (order.take n) [])
      rwa [← greedy_append, List.take_append_drop] at h
    have hall : ∀ x ∈ (greedy ok (order.take n) []).take J.card,
        decide (x ∈ (greedy ok order []).take J.card) = true := by
      intro x hx
      exact decide_eq_true ((hpre.take J.card).subset hx)
    have hlength : ((greedy ok (order.take n) []).take J.card).length =
        min J.card (greedy ok (order.take n) []).length := List.length_take
    calc (order.take n).countP (fun x => decide (x ∈ J))
        ≤ ((greedy ok (order.take n) []).take J.card).length := by omega
      _ = ((greedy ok (order.take n) []).take J.card).countP
            (fun x => decide (x ∈ (greedy ok order []).take J.card)) :=
          (List.countP_eq_length.mpr hall).symm
      _ ≤ _ := ((List.take_sublist _ _).trans (greedy_sublist_order ok _)).countP_le
  have hboth : order.countP (fun x => decide (x ∈ (greedy ok order []).take J.card)) =
      order.countP (fun x => decide (x ∈ J)) := by
    rw [List.countP_eq_length_filter, List.countP_eq_length_filter,
      filter_mem_sublist hchosen hnodup, List.length_take, Nat.min_eq_left hk,
      ← List.toFinset_card_of_nodup (hnodup.filter _), hset]
  have hle := sum_le_of_ahead_equal _ _ hsorted hahead hboth
  rwa [filter_mem_sublist hchosen hnodup, hsum] at hle

end Weights

/-! ### Two caps -/

section Caps
variable {κ γ : Type*} [DecidableEq κ] [DecidableEq γ]

/-- No class of either kind has more members than its cap. -/
structure Capped (layer : α → κ) (group : α → γ) (perLayer perGroup : Nat) (S : Finset α) :
    Prop where
  layers : ∀ k, (S.filter fun x => layer x = k).card ≤ perLayer
  groups : ∀ g, (S.filter fun x => group x = g).card ≤ perGroup

variable {layer : α → κ} {group : α → γ} {perLayer perGroup : Nat} {I J : Finset α}

theorem capped_empty : Capped layer group perLayer perGroup ∅ := by
  constructor
  · intro k
    rw [Finset.filter_empty, Finset.card_empty]
    exact Nat.zero_le _
  · intro g
    rw [Finset.filter_empty, Finset.card_empty]
    exact Nat.zero_le _

theorem Capped.subset (hJ : Capped layer group perLayer perGroup J) (hsub : I ⊆ J) :
    Capped layer group perLayer perGroup I :=
  ⟨fun k => (Finset.card_le_card (Finset.filter_subset_filter _ hsub)).trans (hJ.layers k),
    fun g => (Finset.card_le_card (Finset.filter_subset_filter _ hsub)).trans (hJ.groups g)⟩

/-- The larger set has more members in some class. -/
theorem exists_class_card_lt (f : α → κ) [DecidableEq α] (hlt : I.card < J.card) :
    ∃ k, (I.filter fun x => f x = k).card < (J.filter fun x => f x = k).card := by
  have hclasses := fun (S : Finset α) (hS : S ⊆ I ∪ J) =>
    Finset.card_eq_sum_card_fiberwise (s := S) (t := (I ∪ J).image f) (f := f)
      fun x hx => Finset.mem_coe.mpr (Finset.mem_image_of_mem f (hS (Finset.mem_coe.mp hx)))
  rw [hclasses I Finset.subset_union_left, hclasses J Finset.subset_union_right] at hlt
  obtain ⟨k, -, hk⟩ := Finset.exists_lt_of_sum_lt hlt
  exact ⟨k, hk⟩

variable [DecidableEq α]

theorem card_filter_insert {f : α → κ} {x : α} (hx : x ∉ I) (k : κ) :
    ((insert x I).filter fun y => f y = k).card =
      (I.filter fun y => f y = k).card + if f x = k then 1 else 0 := by
  rw [Finset.filter_insert]
  split_ifs with hk
  · exact Finset.card_insert_of_notMem fun hmem => hx (Finset.mem_filter.mp hmem).1
  · rfl

/-- A layer with room holds a group with room. -/
theorem Capped.augment (hrefine : ∀ a b, group a = group b → layer a = layer b)
    (hI : Capped layer group perLayer perGroup I) (hJ : Capped layer group perLayer perGroup J)
    (hlt : I.card < J.card) :
    ∃ x ∈ J, x ∉ I ∧ Capped layer group perLayer perGroup (insert x I) := by
  obtain ⟨k, hk⟩ := exists_class_card_lt layer hlt
  obtain ⟨g, hg⟩ := exists_class_card_lt group hk
  obtain ⟨x, hxJ, hxI⟩ := Finset.exists_mem_notMem_of_card_lt_card hg
  simp only [Finset.mem_filter] at hxJ hxI
  obtain ⟨⟨hx, hlayer⟩, hgroup⟩ := hxJ
  have hnew : x ∉ I := fun hmem => hxI ⟨⟨hmem, hlayer⟩, hgroup⟩
  have hwithin : ∀ S : Finset α, ((S.filter fun y => layer y = k).filter fun y => group y = g) =
      S.filter fun y => group y = g := by
    intro S
    rw [Finset.filter_filter]
    refine Finset.filter_congr fun y _ => ⟨fun h => h.2, fun h => ⟨?_, h⟩⟩
    exact (hrefine y x (h.trans hgroup.symm)).trans hlayer
  rw [hwithin, hwithin] at hg
  refine ⟨x, hx, hnew, ⟨fun k' => ?_, fun g' => ?_⟩⟩
  · rw [card_filter_insert hnew]
    split_ifs with hk'
    · have hcap := hJ.layers k
      rw [← hk', hlayer]
      omega
    · exact hI.layers k'
  · rw [card_filter_insert hnew]
    split_ifs with hg'
    · have hcap := hJ.groups g
      rw [← hg', hgroup]
      omega
    · exact hI.groups g'

/-- The sets within both caps. -/
def capMatroid (layer : α → κ) (group : α → γ) (perLayer perGroup : Nat)
    (hrefine : ∀ a b, group a = group b → layer a = layer b) : Matroid α :=
  (IndepMatroid.ofFinset Set.univ (Capped layer group perLayer perGroup) capped_empty
    (fun _ _ hJ hsub => hJ.subset hsub) (fun _ _ hI hJ hlt => hI.augment hrefine hJ hlt)
    (fun _ _ => Set.subset_univ _)).matroid

@[simp] theorem capMatroid_indep (hrefine : ∀ a b, group a = group b → layer a = layer b) :
    (capMatroid layer group perLayer perGroup hrefine).Indep (I : Set α) ↔
      Capped layer group perLayer perGroup I := by
  rw [capMatroid, IndepMatroid.matroid_Indep, IndepMatroid.ofFinset_indep]

/-- One more element stays within the caps where its classes have room. -/
theorem Capped.insert_iff {x : α} (hI : Capped layer group perLayer perGroup I) (hx : x ∉ I) :
    Capped layer group perLayer perGroup (insert x I) ↔
      (I.filter fun y => layer y = layer x).card < perLayer ∧
        (I.filter fun y => group y = group x).card < perGroup := by
  constructor
  · intro h
    have hl := h.layers (layer x)
    have hg := h.groups (group x)
    rw [card_filter_insert hx, if_pos rfl] at hl hg
    exact ⟨hl, hg⟩
  · rintro ⟨hl, hg⟩
    constructor
    · intro k
      rw [card_filter_insert hx]
      split_ifs with hk
      · rw [← hk]
        exact hl
      · exact hI.layers k
    · intro g
      rw [card_filter_insert hx]
      split_ifs with hk
      · rw [← hk]
        exact hg
      · exact hI.groups g

/-- Whether the classes of `x` have room beside what was chosen. -/
def capTest (layer : α → κ) (group : α → γ) (perLayer perGroup : Nat) (chosen : List α) (x : α) :
    Bool :=
  (chosen.toFinset.filter fun y => layer y = layer x).card < perLayer &&
    (chosen.toFinset.filter fun y => group y = group x).card < perGroup

theorem capTest_tests (hrefine : ∀ a b, group a = group b → layer a = layer b) :
    Tests (capMatroid layer group perLayer perGroup hrefine)
      (capTest layer group perLayer perGroup) := by
  intro chosen x hindep hx
  rw [capMatroid_indep] at hindep ⊢
  rw [hindep.insert_iff (by rwa [List.mem_toFinset]), capTest, Bool.and_eq_true,
    decide_eq_true_eq, decide_eq_true_eq]

end Caps

end Kvl.Greedy

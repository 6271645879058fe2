import Kvl.Cache.History
import Kvl.Lib.Ranking
import Kvl.Moe.Pins

/-!
# Which routes are pinned

`pin_routes` in terms of the positions of the routes: old pins that are routed
again in the order of their weights, and then the heaviest of the other routes.
-/

namespace Kvl

set_option autoImplicit false

open TopK

variable {B F D R : Type*} [LinearOrder R] {fl : MoeFloats F D} {s : ExpertStore}

/-- `>` compares these floats by their values, as it does unless one is a NaN. -/
def ComparesBy (fl : MoeFloats F D) (value : F → R) (ws : List F) : Prop :=
  ∀ a ∈ ws, ∀ b ∈ ws, fl.gt a b = true ↔ value b < value a

/-- `top_ids` and `top_weights`, which hold `top_k` entries. -/
def routesOf (topK : Int) (topIds : Nat → Nat) (topWeights : Nat → F) : List (Nat × F) :=
  (List.range topK.toNat).map fun j => (topIds j, topWeights j)

/-- The positions of the routes that were pinned before, where hysteresis looks at them. -/
def oldPositions (s : ExpertStore) (c : ExpertCache B) (layer topK : Int) (topIds : Nat → Nat)
    (useHysteresis : Bool) : List Nat :=
  (List.range topK.toNat).filter fun j => useHysteresis && layerpinIsPinned s c layer (topIds j)

/-- The first `n` of the old positions, and then the first of the others. -/
structure PinSelection (before : Nat → Nat → Prop) (n : Nat) (all old kept filled : List Nat) :
    Prop where
  olds : Leading before (min n old.length) old kept
  others : Leading before (n - kept.length) (all.filter (· ∉ kept)) filled

section Loops
variable {topK : Int} {topIds : Nat → Nat} {topWeights : Nat → F} {value : F → R}

theorem retainPins_bounded (n : Nat) (l : List (Nat × F)) (pins : List Nat)
    (h : (pins ++ l.map Prod.fst).Nodup) :
    retainPins (bounded n l) pins = pins ++ (l.take n).map Prod.fst := by
  induction l generalizing n pins with
  | nil =>
    rw [bounded_nil, List.take_nil, List.map_nil, List.append_nil]
    induction n with
    | zero => rfl
    | succ n ih =>
      rw [List.replicate_succ, retainPins]
      exact ih
  | cons r l ih =>
    cases n with
    | zero =>
      rw [bounded, retainPins, List.take_zero, List.map_nil, List.append_nil]
    | succ n =>
      have hnew : r.1 ∉ pins := fun hmem =>
        (List.disjoint_of_nodup_append h) hmem List.mem_cons_self
      have hrest : ((pins ++ [r.1]) ++ l.map Prod.fst).Nodup := by
        rw [List.append_assoc]
        exact h
      rw [bounded, retainPins, if_neg hnew, ih n _ hrest, List.take_succ_cons, List.map_cons,
        List.append_assoc]
      rfl

/-- Finding the heaviest is insertion into one place. -/
theorem insertAll_single (routes : List (Nat × F)) (best : Option (Nat × F)) :
    insertAll (heavier fl) [best] routes =
      [routes.foldl (fun best r => if yields (heavier fl) r best then some r else best) best] := by
  induction routes generalizing best with
  | nil => rfl
  | cons r routes ih =>
    rw [List.foldl_cons, ← ih]
    change insertAll (heavier fl) (insertTop (heavier fl) r [best]) routes = _
    congr 1
    unfold insertTop
    split <;> rfl

variable (hweights : ComparesBy fl value ((List.range topK.toNat).map topWeights))
include hweights

theorem heavier_iff {i j : Nat} (hi : i < topK.toNat) (hj : j < topK.toNat) :
    heavier fl (topIds i, topWeights i) (topIds j, topWeights j) = true ↔
      value (topWeights j) < value (topWeights i) :=
  hweights _ (List.mem_map_of_mem (List.mem_range.mpr hi)) _
    (List.mem_map_of_mem (List.mem_range.mpr hj))

variable (topIds) in
theorem sorted_routes {xs : List Nat} (hxs : xs.Pairwise (· < ·)) (hlt : ∀ i ∈ xs, i < topK.toNat) :
    ∃ sorted : List Nat, sorted.Perm xs ∧ sorted.Pairwise (Ahead fun j => value (topWeights j)) ∧
      ∀ k, insertAll (heavier fl) (List.replicate k none)
        (xs.map fun j => (topIds j, topWeights j)) =
          bounded k (sorted.map fun j => (topIds j, topWeights j)) := by
  refine ⟨_, sortBy_perm _ xs, sortBy_stable (fun j => (topIds j, topWeights j))
    (fun i hi j hj => heavier_iff hweights (hlt i hi) (hlt j hj)) hxs, fun k => ?_⟩
  rw [insertAll_free, sortBy_map _ (heavier fl) _ _ fun _ _ _ _ => rfl]

variable (fl) in
/-- The kept pins are the first of the old positions. -/
theorem retainedPins_selects (c : ExpertCache B) (layer : Int) (n : Nat) (useHysteresis : Bool)
    (hids : ((List.range topK.toNat).map topIds).Nodup) :
    ∃ kept, retainedPins fl s c layer n (routesOf topK topIds topWeights) useHysteresis =
        kept.map topIds ∧
      Leading (Ahead fun j => value (topWeights j))
        (min n (oldPositions s c layer topK topIds useHysteresis).length)
        (oldPositions s c layer topK topIds useHysteresis) kept := by
  unfold retainedPins
  split
  · rename_i hyes
    obtain ⟨hhyst, -⟩ := Bool.and_eq_true_iff.mp hyes
    have hold : ((routesOf topK topIds topWeights).filter fun r => layerpinIsPinned s c layer r.1) =
        (oldPositions s c layer topK topIds useHysteresis).map fun j => (topIds j, topWeights j) := by
      unfold routesOf oldPositions
      rw [List.filter_map, hhyst]
      congr 1
    have hpositions : (oldPositions s c layer topK topIds useHysteresis).Pairwise (· < ·) :=
      List.pairwise_lt_range.filter _
    have hlt : ∀ i ∈ oldPositions s c layer topK topIds useHysteresis, i < topK.toNat := fun i hi =>
      List.mem_range.mp (List.mem_filter.mp hi).1
    obtain ⟨sorted, hperm, hsorted, hinsert⟩ := sorted_routes topIds hweights
      hpositions hlt
    have hnd : (sorted.map topIds).Nodup := by
      rw [(hperm.map topIds).nodup_iff]
      exact hids.sublist (List.filter_sublist.map topIds)
    refine ⟨sorted.take n, ?_, ?_⟩
    · have hnames : (sorted.map fun j => (topIds j, topWeights j)).map Prod.fst =
          sorted.map topIds := by
        rw [List.map_map]
        rfl
      unfold keepPinned
      rw [hold, hinsert, retainPins_bounded n _ [] (by rwa [List.nil_append, hnames]),
        List.nil_append, List.map_take, hnames, List.map_take]
    · have hlead := leading_take hperm hsorted (min_le_right n
        (oldPositions s c layer topK topIds useHysteresis).length)
      rwa [← hperm.length_eq, List.take_eq_take_min, min_assoc, min_self,
        ← List.take_eq_take_min, hperm.length_eq] at hlead
  · rename_i hno
    have hnone : oldPositions s c layer topK topIds useHysteresis = [] := by
      unfold oldPositions
      rw [List.filter_eq_nil_iff]
      intro j _ hj
      obtain ⟨hhyst, hpinned⟩ := Bool.and_eq_true_iff.mp hj
      unfold layerpinIsPinned at hpinned
      cases hp : c.pinnedOf with
      | none =>
        rw [hp] at hpinned
        cases hpinned
      | some p => simp [hhyst, hp] at hno
    refine ⟨[], rfl, ?_⟩
    rw [hnone, List.length_nil, Nat.min_zero]
    exact leading_zero []

variable (topIds) in
/-- The heaviest of some routes is ahead of all others of them. -/
theorem heaviest_ahead {xs : List Nat} (hxs : xs.Pairwise (· < ·)) (hlt : ∀ i ∈ xs, i < topK.toNat)
    (hne : xs ≠ []) :
    ∃ i ∈ xs, heaviest fl (xs.map fun j => (topIds j, topWeights j)) = some (topIds i, topWeights i) ∧
      ∀ j ∈ xs, j ≠ i → Ahead (fun j => value (topWeights j)) i j := by
  obtain ⟨sorted, hperm, hsorted, hinsert⟩ := sorted_routes topIds hweights hxs hlt
  have hone := hinsert 1
  rw [List.replicate_one, insertAll_single] at hone
  cases sorted with
  | nil => exact absurd hperm.nil_eq.symm hne
  | cons i rest =>
    refine ⟨i, hperm.mem_iff.mp List.mem_cons_self, (List.cons.inj hone).1, ?_⟩
    intro j hj hji
    have hrest := (List.mem_cons.mp (hperm.mem_iff.mpr hj)).resolve_left hji
    exact (List.pairwise_cons.mp hsorted).1 j hrest

variable (fl) in
/-- The filled pins are the first of the positions that are not pinned yet. -/
theorem fillPins_selects (hids : ((List.range topK.toNat).map topIds).Nodup) (n : Nat)
    (pins : List Nat)
    (hn : n ≤ ((List.range topK.toNat).filter fun j => topIds j ∉ pins).length) :
    ∃ filled, fillPins fl (routesOf topK topIds topWeights) n pins =
        some (pins ++ filled.map topIds) ∧
      Leading (Ahead fun j => value (topWeights j)) n
        ((List.range topK.toNat).filter fun j => topIds j ∉ pins) filled := by
  induction n generalizing pins with
  | zero => exact ⟨[], by rw [fillPins, List.map_nil, List.append_nil], leading_zero _⟩
  | succ n ih =>
    have hroutes : ((routesOf topK topIds topWeights).filter fun r => r.1 ∉ pins) =
        ((List.range topK.toNat).filter fun j => topIds j ∉ pins).map fun j =>
          (topIds j, topWeights j) := by
      unfold routesOf
      rw [List.filter_map]
      rfl
    obtain ⟨i, hi, hbest, hahead⟩ := heaviest_ahead topIds hweights
      (List.pairwise_lt_range.filter fun j => topIds j ∉ pins)
      (fun j hj => List.mem_range.mp (List.mem_filter.mp hj).1)
      (List.ne_nil_of_length_pos (Nat.lt_of_lt_of_le n.succ_pos hn))
    have hi' := (List.mem_filter.mp hi).1
    -- the names are distinct, so pinning one of them takes one position away
    have hleft : ((List.range topK.toNat).filter fun j => topIds j ∉ pins ++ [topIds i]) =
        ((List.range topK.toNat).filter fun j => topIds j ∉ pins).filter (· ≠ i) := by
      rw [List.filter_filter]
      apply List.filter_congr
      intro j hj
      have hinj : topIds j = topIds i ↔ j = i :=
        ⟨fun heq => List.inj_on_of_nodup_map hids hj hi' heq, fun heq => heq ▸ rfl⟩
      simp only [List.mem_append, List.mem_singleton, not_or, hinj, Bool.decide_and, ne_eq]
      exact Bool.and_comm _ _
    have herase : ((List.range topK.toNat).filter fun j => topIds j ∉ pins).filter (· ≠ i) =
        ((List.range topK.toNat).filter fun j => topIds j ∉ pins).erase i := by
      rw [(List.nodup_range.filter _).erase_eq_filter]
      apply List.filter_congr
      intro j _
      by_cases hji : j = i <;> simp [hji]
    obtain ⟨filled, hfill, hlead⟩ := ih (pins ++ [topIds i]) (by
      rw [hleft, herase, List.length_erase_of_mem hi]
      exact Nat.le_sub_one_of_lt hn)
    refine ⟨i :: filled, ?_, ?_⟩
    · rw [fillPins, hroutes, hbest]
      dsimp only
      rw [hfill, List.append_assoc]
      rfl
    · rw [hleft] at hlead
      exact hlead.cons hi hahead

/-- The chosen pins are the selection. -/
theorem choosePins_selects (c : ExpertCache B) (layer : Int) {n : Nat} (hn : n ≤ topK.toNat)
    (useHysteresis : Bool) (hids : ((List.range topK.toNat).map topIds).Nodup) :
    ∃ kept filled, PinSelection (Ahead fun j => value (topWeights j)) n (List.range topK.toNat)
        (oldPositions s c layer topK topIds useHysteresis) kept filled ∧
      retainedPins fl s c layer n (routesOf topK topIds topWeights) useHysteresis =
        kept.map topIds ∧
      choosePins fl s c layer n (routesOf topK topIds topWeights) useHysteresis =
        some ((kept ++ filled).map topIds) := by
  obtain ⟨kept, hkept, hold⟩ := retainedPins_selects fl hweights c layer n useHysteresis hids
  have hkeptAll : ∀ j ∈ kept, j ∈ List.range topK.toNat := fun j hj =>
    (List.mem_filter.mp (hold.candidates j hj)).1
  have hleft : ((List.range topK.toNat).filter fun j => topIds j ∉ kept.map topIds) =
      (List.range topK.toNat).filter fun j => j ∉ kept := by
    apply List.filter_congr
    intro j hj
    have hinj : topIds j ∈ kept.map topIds ↔ j ∈ kept := by
      rw [List.mem_map]
      constructor
      · rintro ⟨i, hi, heq⟩
        exact List.inj_on_of_nodup_map hids (hkeptAll i hi) hj heq ▸ hi
      · exact fun hmem => ⟨j, hmem, rfl⟩
    simp only [hinj]
  have hroom : n - kept.length ≤ ((List.range topK.toNat).filter fun j => j ∉ kept).length := by
    have hsplit := List.length_eq_length_filter_add (l := List.range topK.toNat)
      fun j => decide (j ∈ kept)
    have hnot : ((List.range topK.toNat).filter fun j => !decide (j ∈ kept)) =
        (List.range topK.toNat).filter fun j => j ∉ kept := by
      apply List.filter_congr
      simp
    have hin : ((List.range topK.toNat).filter fun j => j ∈ kept).length ≤ kept.length := by
      apply (List.Nodup.subperm (List.nodup_range.filter _) ?_).length_le
      intro j hj
      exact of_decide_eq_true (List.mem_filter.mp hj).2
    rw [hnot, List.length_range] at hsplit
    omega
  obtain ⟨filled, hfill, hlead⟩ := fillPins_selects fl hweights hids (n - kept.length)
    (kept.map topIds) (by rw [hleft]; exact hroom)
  rw [hleft] at hlead
  refine ⟨kept, filled, ⟨hold, hlead⟩, hkept, ?_⟩
  unfold choosePins
  dsimp only
  rw [hkept, List.length_map, hfill, List.map_append]

omit hweights in
/-- No old pin is filled in: either all of them are kept, or nothing is filled. -/
theorem PinSelection.not_old {before : Nat → Nat → Prop} {n : Nat} {all old kept filled : List Nat}
    (h : PinSelection before n all old kept filled) (hirrefl : ∀ a, ¬ before a a) :
    ∀ j ∈ filled, j ∉ old := by
  intro j hj hjold
  rcases Nat.le_total n old.length with hle | hle
  · have hnone : filled.length = 0 := by
      rw [h.others.length, h.olds.length, min_eq_left hle, Nat.sub_self]
    rw [List.length_eq_zero_iff.mp hnone] at hj
    exact absurd hj List.not_mem_nil
  · have hall := h.olds.mem_iff hirrefl (by rw [min_eq_right hle]) (a := j)
    have hout := of_decide_eq_true (List.mem_filter.mp (h.others.candidates j hj)).2
    exact hout (hall.mpr hjold)

end Loops

/-- `pins` is the whole pin set of the layer, and the other layers keep theirs. -/
structure LayerPins (s : ExpertStore) (before after : ExpertCache B) (layer : Int)
    (pins : List Nat) : Prop where
  distinct : pins.Nodup
  set : ∀ e : Int, layerpinIsPinned s after layer e = true ↔ ∃ p ∈ pins, e = p
  elsewhere : ∀ k, ¬ InRow s layer k → after.isPinned k = before.isPinned k

theorem layerPins_of_row {c : ExpertCache B} {layer : Int} {pins : List Nat} {p : Nat → Bool}
    (hnd : pins.Nodup) (hkeys : ∀ e ∈ pins, (keyFor s layer e).isSome)
    (hp : ∀ k, p k = true ↔ (c.isPinned k = true ∧ ¬ InRow s layer k) ∨
      ∃ e ∈ pins, keyFor s layer (e : Nat) = some k) :
    LayerPins s c { c with pinnedOf := some p } layer pins := by
  have hrow : ∀ e ∈ pins, ∀ k, keyFor s layer (e : Nat) = some k → InRow s layer k := fun e _ k hk =>
    (keyFor_inRow hk).1
  refine ⟨hnd, fun e => ?_, fun k hk => ?_⟩
  · unfold layerpinIsPinned
    dsimp only
    rw [Bool.and_eq_true_iff, decide_eq_true_iff, hp]
    constructor
    · rintro ⟨hrange, ⟨-, hout⟩ | ⟨e', he', hkey⟩⟩
      · have hL := cInt_le s.nExperts
        obtain ⟨-, he, -, hlt⟩ := hrange
        exact absurd ⟨by unfold flatKey; omega, by unfold flatKey; omega⟩ hout
      · obtain ⟨hrange', heq⟩ := keyFor_inRange hkey
        exact ⟨e', he', (flatKey_inj hrange hrange' heq.symm).2⟩
    · rintro ⟨e', he', rfl⟩
      obtain ⟨k, hk⟩ := Option.isSome_iff_exists.mp (hkeys e' he')
      obtain ⟨hrange, heq⟩ := keyFor_inRange hk
      exact ⟨hrange, .inr ⟨e', he', heq ▸ hk⟩⟩
  · rw [Bool.eq_iff_iff]
    change p k = true ↔ _
    rw [hp]
    constructor
    · rintro (⟨hold, -⟩ | ⟨e, he, hkey⟩)
      · exact hold
      · exact absurd (hrow e he k hkey) hk
    · exact fun hold => .inl ⟨hold, hk⟩

/-- The pins of a layer after `pin_routes`: `kept` and `filled` are positions, `w` the weights. -/
structure RoutesPinned (s : ExpertStore) (before after : ExpertCache B) (layer topK : Int)
    (topIds : Nat → Nat) (w : Nat → R) (useHysteresis : Bool) (kept filled : List Nat) : Prop where
  selection : PinSelection (Ahead w) (min layerPinCount topK.toNat) (List.range topK.toNat)
    (oldPositions s before layer topK topIds useHysteresis) kept filled
  heaviest : useHysteresis = false →
    Leading (Ahead w) (min layerPinCount topK.toNat) (List.range topK.toNat) (kept ++ filled)
  row : LayerPins s before after layer ((kept ++ filled).map topIds)
  count : ((kept ++ filled).map topIds).length = min layerPinCount topK.toNat
  routed : ∀ e ∈ (kept ++ filled).map topIds, ∃ j < topK.toNat, topIds j = e
  retained : kept.length = (((kept ++ filled).map topIds).filter fun e : Nat =>
    useHysteresis && layerpinIsPinned s before layer e).length

theorem PinSelection.of_no_old {before : Nat → Nat → Prop} {n : Nat} {all kept filled : List Nat}
    (h : PinSelection before n all [] kept filled) : Leading before n all (kept ++ filled) := by
  have hnil : kept = [] := List.length_eq_zero_iff.mp (h.olds.length.trans (Nat.min_zero n))
  have hothers := h.others
  subst hnil
  simpa using hothers

/-- The selection of `pin_routes`, for any old pins and any routes of a cache that is large
enough. -/
theorem pinRoutes_selects {c : ExpertCache B} {layer topK : Int} {topIds : Nat → Nat}
    {topWeights : Nat → F} {value : F → R} {useHysteresis allocOk : Bool} (hlayer : 1 ≤ layer)
    (htop : 1 ≤ topK) (hids : ((List.range topK.toNat).map topIds).Nodup)
    (hkeys : ∀ j ∈ List.range topK.toNat, (keyFor s layer (topIds j)).isSome)
    (hweights : ComparesBy fl value ((List.range topK.toNat).map topWeights))
    (hslots : (cInt s.nLayers - 1) * layerPinCount + topK ≤ c.nSlots)
    (hpins : c.pinnedOf.isSome ∨ allocOk = true) :
    ∃ kept filled c',
      pinRoutes fl s c layer topK (routesOf topK topIds topWeights) useHysteresis allocOk =
        (true, c', kept.length) ∧
      RoutesPinned s c c' layer topK topIds (fun j => value (topWeights j)) useHysteresis kept
        filled := by
  have hn : (nPin topK).toNat = min layerPinCount topK.toNat := by
    unfold nPin layerPinCount
    split <;> omega
  have hnames : (routesOf topK topIds topWeights).map Prod.fst =
      (List.range topK.toNat).map topIds := by
    unfold routesOf
    rw [List.map_map]
    rfl
  have hrouteKeys : ∀ e ∈ (routesOf topK topIds topWeights).map Prod.fst,
      (keyFor s layer e).isSome := by
    rw [hnames]
    intro e he
    obtain ⟨j, hj, rfl⟩ := List.mem_map.mp he
    exact hkeys j hj
  have hlayers : 1 < cInt s.nLayers := by
    obtain ⟨k, hk⟩ := Option.isSome_iff_exists.mp (hkeys 0 (List.mem_range.mpr (by omega)))
    obtain ⟨⟨-, -, hlt, -⟩, -⟩ := keyFor_inRange hk
    omega
  obtain ⟨pins, p, hchoose, hdistinct, hlen, hmem, hroutes, hp⟩ := @pinRoutes_replaces _ _ _ fl s c
    layer topK (routesOf topK topIds topWeights) useHysteresis allocOk hpins (by omega)
    (by simp [routesOf]) (by rwa [hnames]) hrouteKeys hlayers hslots
  obtain ⟨kept, filled, hselect, hkept, hchosen⟩ := @choosePins_selects _ _ _ _ _ fl s topK topIds
    topWeights value hweights c layer (nPin topK).toNat (by omega) useHysteresis hids
  obtain rfl := Option.some.inj (hchoose.symm.trans hchosen)
  rw [hn] at hselect hlen
  rw [hnames] at hmem
  have hpinKeys : ∀ e ∈ (kept ++ filled).map topIds, (keyFor s layer e).isSome := by
    intro e he
    obtain ⟨j, hj, rfl⟩ := List.mem_map.mp (hmem e he)
    exact hkeys j hj
  refine ⟨kept, filled, { c with pinnedOf := some p }, ?_, hselect, ?_,
    layerPins_of_row hdistinct hpinKeys hp, hlen, ?_, ?_⟩
  · rw [hroutes, hkept, List.length_map]
  · rintro rfl
    have hnone : oldPositions s c layer topK topIds false = [] :=
      List.filter_eq_nil_iff.mpr fun _ _ h => Bool.false_ne_true h
    rw [hnone] at hselect
    exact hselect.of_no_old
  · intro e he
    obtain ⟨j, hj, hje⟩ := List.mem_map.mp (hmem e he)
    exact ⟨j, List.mem_range.mp hj, hje⟩
  · have hall : ∀ j ∈ kept, (useHysteresis && layerpinIsPinned s c layer (topIds j)) = true :=
      fun j hj => (List.mem_filter.mp (hselect.olds.candidates j hj)).2
    have hnone : ∀ j ∈ filled, ¬ (useHysteresis && layerpinIsPinned s c layer (topIds j)) = true := by
      intro j hj hold
      apply hselect.not_old (Ahead.irrefl _) j hj
      exact List.mem_filter.mpr ⟨(List.mem_filter.mp (hselect.others.candidates j hj)).1, hold⟩
    rw [List.filter_map, List.length_map, List.filter_append, List.length_append]
    have hkeptAll := List.filter_eq_self.mpr hall
    have hfilledNone := List.filter_eq_nil_iff.mpr hnone
    have hcount : ∀ l : List Nat, l.filter ((fun e : Nat =>
        useHysteresis && layerpinIsPinned s c layer e) ∘ topIds) =
          l.filter fun j => useHysteresis && layerpinIsPinned s c layer (topIds j) := fun _ => rfl
    rw [hcount, hcount, hkeptAll, hfilledNone, List.length_nil, Nat.add_zero]

/-- Two routes of the same weight, the later of them pinned before. -/
theorem pinRoutes_selects_twoExperts : ∃ kept filled c',
    pinRoutes intMoeFloats twoExperts
      { emptyCache (fun _ => (7 : Nat)) 16384 4096 4 with pinnedOf := some fun k => k == 2 } 1 2
      (routesOf 2 (fun j => 1 - j) fun _ => (5 : Int)) true true = (true, c', kept.length) ∧
    RoutesPinned twoExperts
      { emptyCache (fun _ => (7 : Nat)) 16384 4096 4 with pinnedOf := some fun k => k == 2 } c' 1 2
      (fun j => 1 - j) (fun _ => (5 : Int)) true kept filled :=
  @pinRoutes_selects Nat Int Int Int _ intMoeFloats twoExperts
    { emptyCache (fun _ => (7 : Nat)) 16384 4096 4 with pinnedOf := some fun k => k == 2 } 1 2
    (fun j => 1 - j) (fun _ => 5) id true true (by decide) (by decide) (by decide) (by decide)
    (by simp [ComparesBy, intMoeFloats, intFloats]) (by decide) (.inl rfl)

end Kvl

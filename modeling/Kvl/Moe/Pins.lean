import Kvl.Cache.PinTable
import Kvl.Moe.GgufQ8

/-!
# What the layer-pin policy pins

The choice of pins for one layer, what a pin call leaves in the pin table, and
a bound on the table: each routed layer owns at most two pins.
-/

namespace Kvl

set_option autoImplicit false

open TopK

section Choice
variable {B F D : Type*} {fl : MoeFloats F D} {s : ExpertStore}

theorem retainPins_spec {ids : List Nat} {places : List (Option (Nat × F))} {pins : List Nat}
    (hplaces : ∀ r, some r ∈ places → r.1 ∈ ids) (hnd : pins.Nodup) (hmem : ∀ e ∈ pins, e ∈ ids) :
    (retainPins places pins).Nodup ∧ (∀ e ∈ retainPins places pins, e ∈ ids) ∧
      (retainPins places pins).length ≤ pins.length + places.length := by
  induction places generalizing pins with
  | nil => exact ⟨hnd, hmem, by simp [retainPins]⟩
  | cons place places ih =>
    have hrest : ∀ r, some r ∈ places → r.1 ∈ ids := fun r hr =>
      hplaces r (List.mem_cons_of_mem _ hr)
    cases place with
    | none =>
      obtain ⟨h1, h2, h3⟩ := ih hrest hnd hmem
      exact ⟨h1, h2, h3.trans (by simp)⟩
    | some r =>
      unfold retainPins
      split
      · obtain ⟨h1, h2, h3⟩ := ih hrest hnd hmem
        exact ⟨h1, h2, h3.trans (by simp)⟩
      · rename_i hnew
        obtain ⟨h1, h2, h3⟩ := @ih (pins ++ [r.1]) hrest
          (by simpa [List.nodup_append] using ⟨hnd, fun e he heq => hnew (heq ▸ he)⟩)
          (by
            intro e he
            rcases List.mem_append.mp he with he | he
            · exact hmem e he
            · rw [List.mem_singleton.mp he]
              exact hplaces r List.mem_cons_self)
        refine ⟨h1, h2, ?_⟩
        simp only [List.length_append, List.length_cons, List.length_nil] at h3 ⊢
        omega

theorem heaviest_spec (fl : MoeFloats F D) {routes : List (Nat × F)} (h : routes ≠ []) :
    ∃ r ∈ routes, heaviest fl routes = some r := by
  have go : ∀ (l : List (Nat × F)) (best : Option (Nat × F)),
      (best.isSome ∨ l ≠ []) → ∃ r, (best = some r ∨ r ∈ l) ∧
        l.foldl (fun best r => if yields (heavier fl) r best then some r else best) best
          = some r := by
    intro l
    induction l with
    | nil =>
      intro best hbest
      obtain ⟨r, rfl⟩ := Option.isSome_iff_exists.mp (hbest.resolve_right (by simp))
      exact ⟨r, .inl rfl, rfl⟩
    | cons a l ih =>
      intro best _
      rw [List.foldl_cons]
      split
      · obtain ⟨r, hr, heq⟩ := ih (some a) (.inl rfl)
        refine ⟨r, .inr ?_, heq⟩
        rcases hr with hr | hr
        · obtain rfl := Option.some.inj hr
          exact List.mem_cons_self
        · exact List.mem_cons_of_mem a hr
      · rename_i hno
        have hsome : best.isSome := by
          cases best with
          | none => simp [yields] at hno
          | some b => rfl
        obtain ⟨r, hr, heq⟩ := ih best (.inl hsome)
        exact ⟨r, hr.imp_right (List.mem_cons_of_mem a), heq⟩
  obtain ⟨r, hr, heq⟩ := go routes none (.inr h)
  exact ⟨r, hr.resolve_left (by simp), heq⟩

/-- The filling loop always finds a route that is not pinned yet. -/
theorem fillPins_spec {routes : List (Nat × F)} (hroutes : (routes.map Prod.fst).Nodup) {n : Nat}
    {pins : List Nat} (hnd : pins.Nodup) (hmem : ∀ e ∈ pins, e ∈ routes.map Prod.fst)
    (hlen : pins.length + n ≤ routes.length) :
    ∃ all, fillPins fl routes n pins = some all ∧ all.Nodup ∧ all.length = pins.length + n ∧
      ∀ e ∈ all, e ∈ routes.map Prod.fst := by
  induction n generalizing pins with
  | zero => exact ⟨pins, rfl, hnd, rfl, hmem⟩
  | succ n ih =>
    have hleft : (routes.filter fun r => r.1 ∉ pins) ≠ [] := by
      intro hnil
      rw [List.filter_eq_nil_iff] at hnil
      have hsub : routes.map Prod.fst ⊆ pins := by
        intro e he
        obtain ⟨r, hr, rfl⟩ := List.mem_map.mp he
        simpa using hnil r hr
      have hle := (hroutes.subperm hsub).length_le
      rw [List.length_map] at hle
      omega
    obtain ⟨r, hr, hbest⟩ := heaviest_spec fl hleft
    obtain ⟨hroute, hnew⟩ := List.mem_filter.mp hr
    have hnew' : r.1 ∉ pins := by simpa using hnew
    obtain ⟨all, hall, h1, h2, h3⟩ := @ih (pins ++ [r.1])
      (by simpa [List.nodup_append] using ⟨hnd, fun e he heq => hnew' (heq ▸ he)⟩)
      (by
        intro e he
        rcases List.mem_append.mp he with he | he
        · exact hmem e he
        · rw [List.mem_singleton.mp he]
          exact List.mem_map_of_mem hroute)
      (by
        simp only [List.length_append, List.length_singleton]
        omega)
    refine ⟨all, ?_, h1, ?_, h3⟩
    · rw [fillPins, hbest]
      exact hall
    · rw [h2]
      simp only [List.length_append, List.length_singleton]
      omega

/-- Distinct routes always fill the pins, and every pin is one of the routes. -/
theorem choosePins_spec {c : ExpertCache B} {layer : Int} {nPin : Nat} {routes : List (Nat × F)}
    (hroutes : (routes.map Prod.fst).Nodup) (hlen : nPin ≤ routes.length) (useHysteresis : Bool) :
    ∃ pins, choosePins fl s c layer nPin routes useHysteresis = some pins ∧ pins.Nodup ∧
      pins.length = nPin ∧ ∀ e ∈ pins, e ∈ routes.map Prod.fst := by
  have hkept : (retainPins (keepPinned fl s c layer nPin routes) []).Nodup ∧
      (∀ e ∈ retainPins (keepPinned fl s c layer nPin routes) [], e ∈ routes.map Prod.fst) ∧
      (retainPins (keepPinned fl s c layer nPin routes) []).length ≤
        0 + (keepPinned fl s c layer nPin routes).length := by
    apply retainPins_spec _ List.nodup_nil (by simp)
    intro r hr
    rcases mem_insertAll (heavier fl) hr with hr | hr
    · exact List.mem_map_of_mem (List.mem_filter.mp hr).1
    · simp at hr
  have hplaces : (keepPinned fl s c layer nPin routes).length = nPin := by
    unfold keepPinned
    rw [insertAll_length, List.length_replicate]
  obtain ⟨h1, h2, h3⟩ := hkept
  unfold choosePins retainedPins
  dsimp only
  split
  · obtain ⟨all, hall, hnd, hall', hmem⟩ := @fillPins_spec _ _ fl _ hroutes
        (nPin - (retainPins (keepPinned fl s c layer nPin routes) []).length) _ h1 h2 (by omega)
    exact ⟨all, hall, hnd, by omega, hmem⟩
  · obtain ⟨all, hall, hnd, hall', hmem⟩ := @fillPins_spec _ _ fl _ hroutes nPin _ List.nodup_nil
        (by simp) (by simpa using hlen)
    exact ⟨all, by simpa using hall, hnd, by simpa using hall', hmem⟩

theorem nPin_le (topK : Int) : nPin topK ≤ layerPinCount ∧ nPin topK ≤ topK := by
  unfold nPin layerPinCount
  split <;> omega

theorem nPin_pos {topK : Int} (h : 0 < topK) : 0 < nPin topK := by
  unfold nPin layerPinCount
  split <;> omega

theorem le_of_toNat_le {a b : Int} (ha : 0 < a) (h : a.toNat ≤ b.toNat) : a ≤ b := by omega

/-- Distinct routes that the cache can address: the chosen pins replace the row of the layer. -/
theorem pinRoutes_replaces {c : ExpertCache B} {layer topK : Int} {routes : List (Nat × F)}
    {useHysteresis allocOk : Bool} (hpins : c.pinnedOf.isSome ∨ allocOk = true)
    (htop : 0 < topK) (hlen : routes.length = topK.toNat) (hnd : (routes.map Prod.fst).Nodup)
    (hkeys : ∀ e ∈ routes.map Prod.fst, (keyFor s layer e).isSome) (hlayers : 1 < cInt s.nLayers)
    (hslots : (cInt s.nLayers - 1) * layerPinCount + topK ≤ c.nSlots) :
    ∃ pins p, choosePins fl s c layer (nPin topK).toNat routes useHysteresis = some pins ∧
      pins.Nodup ∧ pins.length = (nPin topK).toNat ∧ (∀ e ∈ pins, e ∈ routes.map Prod.fst) ∧
      pinRoutes fl s c layer topK routes useHysteresis allocOk =
        (true, { c with pinnedOf := some p },
          (retainedPins fl s c layer (nPin topK).toNat routes useHysteresis).length) ∧
      ∀ k, p k = true ↔ (c.isPinned k = true ∧ ¬ InRow s layer k) ∨
        ∃ e ∈ pins, keyFor s layer e = some k := by
  have hpos := nPin_pos htop
  have hle := (nPin_le topK).2
  obtain ⟨pins, hchoose, hpnd, hplen, hpmem⟩ := @choosePins_spec _ _ _ fl s c layer
      ((nPin topK).toNat) _ hnd (by omega) useHysteresis
  have hids : pinIds (some (pins.map Int.ofNat)) (nPin topK) = pins.map Int.ofNat := by
    unfold pinIds
    rw [Option.getD_some, List.take_of_length_le]
    simp [hplen]
  have hpkeys : ∀ e ∈ pinIds (some (pins.map Int.ofNat)) (nPin topK), (keyFor s layer e).isSome := by
    rw [hids]
    intro e he
    obtain ⟨p, hp, rfl⟩ := List.mem_map.mp he
    exact hkeys p (hpmem p hp)
  have hrange : ∀ p ∈ pins, p < (cInt s.nExperts).toNat ∧ 0 ≤ layer ∧ layer < cInt s.nLayers := by
    intro p hp
    obtain ⟨k, hk⟩ := Option.isSome_iff_exists.mp (hkeys p (hpmem p hp))
    obtain ⟨⟨h1, _, h2, h3⟩, _⟩ := keyFor_inRange hk
    exact ⟨Int.lt_toNat.mpr h3, h1, h2⟩
  obtain ⟨p₀, hp₀⟩ := List.exists_mem_of_length_pos (by omega : 0 < pins.length)
  have hfew : pins.length ≤ (cInt s.nExperts).toNat := by
    have hsub : pins ⊆ List.range (cInt s.nExperts).toNat := fun p hp =>
      List.mem_range.mpr (hrange p hp).1
    simpa using (hpnd.subperm hsub).length_le
  have hfit : nPin topK ≤ cInt s.nExperts := by
    rw [hplen] at hfew
    exact le_of_toNat_le hpos hfew
  have hrc := @pin_accepted _ _ _ _ (some (pins.map Int.ofNat)) (nPin topK) allocOk
      (hrange p₀ hp₀).2 ⟨hpos.le, hfit⟩ (by simp) hpkeys hpins
  have heq : pinRoutes fl s c layer topK routes useHysteresis allocOk =
      (decide ((kvlExpertCachePinLayer s c layer (some (pins.map Int.ofNat)) (nPin topK)
        allocOk).rc = 0), (kvlExpertCachePinLayer s c layer (some (pins.map Int.ofNat)) (nPin topK)
        allocOk).cache, (retainedPins fl s c layer (nPin topK).toNat routes useHysteresis).length) := by
    unfold pinRoutes
    dsimp only
    rw [if_neg (by omega), if_neg (by omega), hchoose]
  have hcase := pin_cases (s := s) c layer (some (pins.map Int.ofNat)) (nPin topK) allocOk
  generalize kvlExpertCachePinLayer s c layer (some (pins.map Int.ofNat)) (nPin topK) allocOk = res
    at hrc hcase heq
  cases hcase with
  | refused => simp at hrc
  | @replaced p hsome hp =>
    refine ⟨pins, p, hchoose, hpnd, hplen, hpmem, heq, fun k => (hp k).trans (or_congr_right ?_)⟩
    rw [hids]
    simp only [List.mem_map, exists_exists_and_eq_and, Int.ofNat_eq_natCast]

end Choice

section PinBound
variable {B : Type*} {s : ExpertStore}

/-- Every routed layer owns at most two pins. -/
structure PinsBounded (s : ExpertStore) (c : ExpertCache B) (rows : Nat → Finset Nat) : Prop where
  card : ∀ L, (rows L).card ≤ layerPinCount
  row : ∀ L : Nat, ∀ k ∈ rows L, InRow s L k
  cover : ∀ k, c.isPinned k = true → ∃ L, 1 ≤ L ∧ L < s.nLayers ∧ k ∈ rows L

theorem pinsBounded_none {c : ExpertCache B} (h : c.pinnedOf = none) :
    PinsBounded s c fun _ => ∅ where
  card := by simp
  row := by simp
  cover := by simp [ExpertCache.isPinned, h]

theorem PinsBounded.congr {c c' : ExpertCache B} {rows : Nat → Finset Nat}
    (h : PinsBounded s c rows) (hpins : c'.pinnedOf = c.pinnedOf) : PinsBounded s c' rows where
  card := h.card
  row := h.row
  cover k hk := h.cover k (by simpa [ExpertCache.isPinned, hpins] using hk)

/-- All pinned keys, and at most two for each routed layer. -/
theorem PinsBounded.pinned {c : ExpertCache B} {rows : Nat → Finset Nat}
    (h : PinsBounded s c rows) : ∃ P : Finset Nat, (∀ k, c.isPinned k = true → k ∈ P) ∧
      P.card ≤ (s.nLayers - 1) * layerPinCount := by
  refine ⟨(Finset.Ico 1 s.nLayers).biUnion rows, ?_, ?_⟩
  · intro k hk
    obtain ⟨L, hlow, hhigh, hmem⟩ := h.cover k hk
    exact Finset.mem_biUnion.mpr ⟨L, Finset.mem_Ico.mpr ⟨hlow, hhigh⟩, hmem⟩
  · have hle := Finset.card_biUnion_le_card_mul (Finset.Ico 1 s.nLayers) rows layerPinCount
      fun L _ => h.card L
    rwa [Nat.card_Ico] at hle

/-- A pin call for at most two experts of a routed layer keeps the bound, and so
does one for no expert at all. -/
theorem PinsBounded.pinLayer {c : ExpertCache B} {rows : Nat → Finset Nat}
    (h : PinsBounded s c rows) {layer n : Int} (hn : n ≤ layerPinCount)
    (hlayer : 1 ≤ layer ∨ n = 0) (experts : Option (List Int)) (allocOk : Bool) :
    ∃ rows', PinsBounded s (kvlExpertCachePinLayer s c layer experts n allocOk).cache rows' := by
  have hcase := pin_cases (s := s) c layer experts n allocOk
  generalize kvlExpertCachePinLayer s c layer experts n allocOk = res at hcase ⊢
  cases hcase with
  | refused => exact ⟨rows, h⟩
  | @replaced p hids hp =>
    have hlen : (pinIds experts n).length ≤ layerPinCount := by
      unfold pinIds
      rw [List.length_take]
      omega
    refine ⟨Function.update rows layer.toNat
      ((pinIds experts n).filterMap (keyFor s layer)).toFinset, ?_, ?_, ?_⟩
    · intro L
      rw [Function.update_apply]
      split
      · exact ((List.toFinset_card_le _).trans (List.length_filterMap_le _ _)).trans hlen
      · exact h.card L
    · intro L k hk
      rw [Function.update_apply] at hk
      split at hk
      · rename_i hL
        obtain ⟨e, _, hkey⟩ := List.mem_filterMap.mp (List.mem_toFinset.mp hk)
        have hrow := (keyFor_inRow hkey).1
        unfold InRow at hrow ⊢
        rwa [hL]
      · exact h.row L k hk
    · intro k hk
      rcases (hp k).mp hk with ⟨hold, hout⟩ | ⟨e, he, hkey⟩
      · obtain ⟨L, hlow, hhigh, hmem⟩ := h.cover k hold
        refine ⟨L, hlow, hhigh, ?_⟩
        have hne : L ≠ layer.toNat := by
          rintro rfl
          have hrow := h.row _ k hmem
          unfold InRow at hrow hout
          rw [Int.toNat_natCast] at hrow
          exact hout hrow
        rwa [Function.update_of_ne hne]
      · have hpos : 1 ≤ layer := by
          refine hlayer.resolve_right ?_
          rintro rfl
          simp [pinIds] at he
        refine ⟨layer.toNat, by omega, (keyFor_inRow hkey).2, ?_⟩
        rw [Function.update_self]
        exact List.mem_toFinset.mpr (List.mem_filterMap.mpr ⟨e, he, hkey⟩)

end PinBound

end Kvl

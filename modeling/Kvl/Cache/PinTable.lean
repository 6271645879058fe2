import Kvl.Cache.Batch

/-!
# The pin table

What one `pin_layer` does: it refuses and leaves the cache alone, or it replaces
the row of its layer and nothing else.
-/

namespace Kvl

set_option autoImplicit false

section PinTable
variable {B : Type*} {s : ExpertStore}

theorem setPins_spec {layer : Int} {ids : List Int} (pinned : Nat → Bool)
    (hids : ∀ e ∈ ids, (keyFor s layer e).isSome) :
    (setPins s layer ids pinned).1 = true ∧ ∀ k, (setPins s layer ids pinned).2 k = true ↔
      pinned k = true ∨ ∃ e ∈ ids, keyFor s layer e = some k := by
  induction ids generalizing pinned with
  | nil => exact ⟨rfl, by simp [setPins]⟩
  | cons e es ih =>
    obtain ⟨key, hkey⟩ := Option.isSome_iff_exists.mp (hids e List.mem_cons_self)
    have hrest := ih (Function.update pinned key true) fun e' he =>
      hids e' (List.mem_cons_of_mem e he)
    unfold setPins
    rw [hkey]
    refine ⟨hrest.1, fun k => ?_⟩
    dsimp only
    rw [hrest.2]
    simp only [Function.update_apply, List.mem_cons, exists_eq_or_imp, hkey, Option.some.injEq]
    by_cases hk : k = key
    · simp [hk]
    · simp [hk, Ne.symm hk]

/-- The ids a pin call goes through. -/
def pinIds (experts : Option (List Int)) (n : Int) : List Int := (experts.getD []).take n.toNat

/-- The keys of one layer's row of the pin table. -/
def InRow (s : ExpertStore) (layer : Int) (k : Nat) : Prop :=
  layer.toNat * s.nExperts ≤ k ∧ k < layer.toNat * s.nExperts + s.nExperts

/-- A pin call either refuses and changes nothing, or replaces one row. -/
inductive PinCase (s : ExpertStore) (c : ExpertCache B) (layer : Int) (experts : Option (List Int))
    (n : Int) : CallResult B → Prop where
  | refused : PinCase s c layer experts n ⟨-1, none, [], c⟩
  | replaced {p : Nat → Bool} (hids : ∀ e ∈ pinIds experts n, (keyFor s layer e).isSome)
      (hp : ∀ k, p k = true ↔ (c.isPinned k = true ∧ ¬ InRow s layer k) ∨
        ∃ e ∈ pinIds experts n, keyFor s layer e = some k) :
    PinCase s c layer experts n ⟨0, none, [], { c with pinnedOf := some p }⟩

theorem pin_cases (c : ExpertCache B) (layer : Int) (experts : Option (List Int)) (n : Int)
    (allocOk : Bool) :
    PinCase s c layer experts n (kvlExpertCachePinLayer s c layer experts n allocOk) := by
  unfold kvlExpertCachePinLayer
  split
  · exact .refused
  dsimp only
  split
  · exact .refused
  rename_i hkeys
  split
  · exact .refused
  have hids : ∀ e ∈ pinIds experts n, (keyFor s layer e).isSome := by
    intro e he
    by_contra hno
    exact hkeys (List.any_eq_true.mpr ⟨e, he, by simpa using hno⟩)
  obtain ⟨hok, hset⟩ := setPins_spec (clearLayer s layer (c.pinnedOf.getD fun _ => false)) hids
  have hclear : ∀ k, clearLayer s layer (c.pinnedOf.getD fun _ => false) k = true ↔
      c.isPinned k = true ∧ ¬ InRow s layer k := by
    intro k
    unfold clearLayer ExpertCache.isPinned InRow
    cases c.pinnedOf with
    | none => simp
    | some pinned =>
      split
      · rename_i hin
        simp [hin]
      · rename_i hout
        simp [hout]
  have hcase := PinCase.replaced hids fun k => (hset k).trans (or_congr_left (hclear k))
  unfold pinIds at hcase hok
  simpa only [hok, if_true] using hcase

theorem pin_accepted {c : ExpertCache B} {layer : Int} {experts : Option (List Int)} {n : Int}
    {allocOk : Bool} (hlayer : 0 ≤ layer ∧ layer < cInt s.nLayers)
    (hn : 0 ≤ n ∧ n ≤ cInt s.nExperts) (hexperts : 0 < n → experts ≠ none)
    (hids : ∀ e ∈ pinIds experts n, (keyFor s layer e).isSome)
    (halloc : c.pinnedOf.isSome ∨ allocOk = true) :
    (kvlExpertCachePinLayer s c layer experts n allocOk).rc = 0 := by
  have hargs : ¬ (layer < 0 ∨ layer ≥ cInt s.nLayers ∨ n < 0 ∨ n > cInt s.nExperts ∨
      (n > 0 ∧ experts = none)) := by
    rintro (h | h | h | h | ⟨h, hnull⟩)
    · omega
    · omega
    · omega
    · omega
    · exact hexperts h hnull
  have hkeys : ¬ ((pinIds experts n).any fun e => (keyFor s layer e).isNone) = true := by
    rw [List.any_eq_true]
    rintro ⟨e, he, hnone⟩
    have := hids e he
    simp [Option.isNone_iff_eq_none.mp hnone] at this
  have hmem : ¬ (c.pinnedOf.isNone && !allocOk) = true := by
    rcases halloc with h | h
    · simp [Option.isSome_iff_ne_none.mp h]
    · simp [h]
  have hok := (setPins_spec (clearLayer s layer (c.pinnedOf.getD fun _ => false)) hids).1
  unfold pinIds at hkeys hok
  unfold kvlExpertCachePinLayer
  rw [if_neg hargs]
  dsimp only
  rw [if_neg hkeys, if_neg hmem, hok]
  rfl

theorem keyFor_inRow {layer e : Int} {k : Nat} (h : keyFor s layer e = some k) :
    InRow s layer k ∧ layer.toNat < s.nLayers := by
  unfold keyFor at h
  split at h
  · rename_i hr
    split at h
    · simp at h
    · obtain rfl := Option.some.inj h
      obtain ⟨h0, he0, hl, he⟩ := hr
      have hL := cInt_le s.nLayers
      have hE := cInt_le s.nExperts
      unfold InRow flatKey
      exact ⟨⟨by omega, by omega⟩, by omega⟩
  · simp at h

theorem keyFor_inRange {layer e : Int} {k : Nat} (h : keyFor s layer e = some k) :
    idsInRange s layer e ∧ flatKey s layer e = k := by
  unfold keyFor at h
  split at h
  · rename_i hr
    split at h
    · simp at h
    · exact ⟨hr, Option.some.inj h⟩
  · simp at h

theorem keyFor_inj {layer e e' : Int} {k : Nat} (h : keyFor s layer e = some k)
    (h' : keyFor s layer e' = some k) : e = e' := by
  obtain ⟨hr, heq⟩ := keyFor_inRange h
  obtain ⟨hr', heq'⟩ := keyFor_inRange h'
  exact (flatKey_inj hr hr' (heq.trans heq'.symm)).2

end PinTable

section PinsOnly
variable {B : Type*} {s : ExpertStore}

/-- Two caches that differ in their pins at most. -/
def SameButPins (c c' : ExpertCache B) : Prop := ∃ p, c' = { c with pinnedOf := p }

theorem SameButPins.refl (c : ExpertCache B) : SameButPins c c := ⟨c.pinnedOf, rfl⟩

theorem SameButPins.trans {c d e : ExpertCache B} (h : SameButPins c d) (h' : SameButPins d e) :
    SameButPins c e := by
  obtain ⟨p, rfl⟩ := h
  obtain ⟨q, rfl⟩ := h'
  exact ⟨q, rfl⟩

theorem SameButPins.slotOf {c d : ExpertCache B} (h : SameButPins c d) : d.slotOf = c.slotOf := by
  obtain ⟨p, rfl⟩ := h
  rfl

theorem SameButPins.shape {c d : ExpertCache B} (h : SameButPins c d) :
    d.nSlots = c.nSlots ∧ d.slotBytes = c.slotBytes := by
  obtain ⟨p, rfl⟩ := h
  exact ⟨rfl, rfl⟩

theorem SameButPins.inv {c d : ExpertCache B} {load : Nat → B → B} (h : SameButPins c d)
    (hinv : RepInv s load c) : RepInv s load d := by
  obtain ⟨p, rfl⟩ := h
  exact hinv.congr rfl rfl rfl rfl rfl rfl

theorem pinLayer_sameButPins (c : ExpertCache B) (layer : Int) (experts : Option (List Int))
    (n : Int) (allocOk : Bool) :
    SameButPins c (kvlExpertCachePinLayer s c layer experts n allocOk).cache := by
  have hcase := pin_cases (s := s) c layer experts n allocOk
  generalize kvlExpertCachePinLayer s c layer experts n allocOk = res at hcase ⊢
  cases hcase with
  | refused => exact .refl c
  | @replaced p hids hp => exact ⟨some p, rfl⟩

theorem pinLayer_isSome {c : ExpertCache B} {layer : Int} {experts : Option (List Int)} {n : Int}
    {allocOk : Bool} (h : c.pinnedOf.isSome ∨
      (kvlExpertCachePinLayer s c layer experts n allocOk).rc = 0) :
    (kvlExpertCachePinLayer s c layer experts n allocOk).cache.pinnedOf.isSome := by
  have hcase := pin_cases (s := s) c layer experts n allocOk
  generalize kvlExpertCachePinLayer s c layer experts n allocOk = res at h hcase ⊢
  cases hcase with
  | refused => exact h.resolve_right (by simp)
  | replaced hids hp => rfl

end PinsOnly

end Kvl

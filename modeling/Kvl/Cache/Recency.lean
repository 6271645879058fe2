import Kvl.Cache.Batch
import Kvl.Lib.Recency

/-!
# The order of the resident keys

The stamps of the slots order the resident keys, the most recently stamped
first. Without pins the victim search picks an empty slot or the slot with the
oldest stamp, so a `get` does to this order what a request does to a recency
list that is cut off at the number of slots.
-/

namespace Kvl

set_option autoImplicit false

open ExpertCache

variable {B : Type*} {s : ExpertStore} {load : Nat → B → B}

namespace ExpertCache

/-- The stamp of a resident key. -/
def stamp (c : ExpertCache B) (k : Nat) : Nat :=
  match c.slotOf k with
  | none => 0
  | some slot => c.usedAt slot

theorem stamp_of_slotOf {c : ExpertCache B} {k slot : Nat} (h : c.slotOf k = some slot) :
    c.stamp k = c.usedAt slot := by
  unfold stamp
  rw [h]

/-- A slot that the victim search compares by its stamp. -/
def Candidate (c : ExpertCache B) (avoid : List Nat) (i : Nat) : Prop :=
  ∃ k, c.keyOf i = .key k ∧ c.isPinned k = false ∧ k ∉ avoid

/-- The search ends at an empty slot, or sees no empty slot and no older candidate. -/
theorem pickVictimFrom_oldest (c : ExpertCache B) (avoid slots : List Nat)
    (best oldest : Option Nat) (hold : oldest = best.map c.usedAt) {i : Nat}
    (h : c.pickVictimFrom avoid slots best oldest = some i) :
    c.keyOf i = .empty ∨
      ((∀ j ∈ slots, c.keyOf j ≠ .empty) ∧
        (∀ j ∈ slots, c.Candidate avoid j → c.usedAt i ≤ c.usedAt j) ∧
        ∀ b, best = some b → c.usedAt i ≤ c.usedAt b) := by
  induction slots generalizing best oldest with
  | nil =>
    refine .inr ⟨by simp, by simp, ?_⟩
    rintro b rfl
    obtain rfl := Option.some.inj h
    exact Nat.le_refl _
  | cons j rest ih =>
    -- a slot that is skipped is neither empty nor a candidate
    have skip : c.keyOf j ≠ .empty → ¬ c.Candidate avoid j →
        c.pickVictimFrom avoid rest best oldest = some i →
        c.keyOf i = .empty ∨
          ((∀ x ∈ j :: rest, c.keyOf x ≠ .empty) ∧
            (∀ x ∈ j :: rest, c.Candidate avoid x → c.usedAt i ≤ c.usedAt x) ∧
            ∀ b, best = some b → c.usedAt i ≤ c.usedAt b) := by
      intro hne hcand hrest
      rcases ih best oldest hold hrest with hempty | ⟨hfull, hall, hbest⟩
      · exact .inl hempty
      · refine .inr ⟨?_, ?_, hbest⟩
        · exact List.forall_mem_cons.mpr ⟨hne, hfull⟩
        · exact List.forall_mem_cons.mpr ⟨fun hj => absurd hj hcand, hall⟩
    unfold pickVictimFrom at h
    cases hj : c.keyOf j with
    | inflight =>
      rw [hj] at h
      exact skip (by simp [hj]) (by rintro ⟨k, hk, -⟩; simp [hj] at hk) h
    | empty =>
      rw [hj] at h
      obtain rfl := Option.some.inj h
      exact .inl hj
    | key k =>
      rw [hj] at h
      dsimp only at h
      have hcand : c.isPinned k = true ∨ keyInList k avoid = true → ¬ c.Candidate avoid j := by
        rintro hskip ⟨k', hk', hpin, havoid⟩
        obtain rfl : k = k' := by simpa [hj] using hk'
        rcases hskip with hskip | hskip
        · rw [hpin] at hskip
          cases hskip
        · exact havoid ((keyInList_iff _ _).mp hskip)
      by_cases hpin : c.isPinned k = true
      · rw [if_pos hpin] at h
        exact skip (by simp [hj]) (hcand (.inl hpin)) h
      · rw [if_neg hpin] at h
        by_cases havoid : keyInList k avoid = true
        · rw [if_pos havoid] at h
          exact skip (by simp [hj]) (hcand (.inr havoid)) h
        · rw [if_neg havoid] at h
          by_cases holder : older (c.usedAt j) oldest = true
          · rw [if_pos holder] at h
            rcases ih (some j) (some (c.usedAt j)) rfl h with hempty | ⟨hfull, hall, hbest⟩
            · exact .inl hempty
            · have hle := hbest j rfl
              refine .inr ⟨?_, ?_, ?_⟩
              · exact List.forall_mem_cons.mpr ⟨by simp [hj], hfull⟩
              · exact List.forall_mem_cons.mpr ⟨fun _ => hle, hall⟩
              · rintro b rfl
                rw [hold] at holder
                have hlt : c.usedAt j < c.usedAt b := by simpa [older] using holder
                omega
          · rw [if_neg holder] at h
            rcases ih best oldest hold h with hempty | ⟨hfull, hall, hbest⟩
            · exact .inl hempty
            · refine .inr ⟨?_, ?_, hbest⟩
              · exact List.forall_mem_cons.mpr ⟨by simp [hj], hfull⟩
              · refine List.forall_mem_cons.mpr ⟨fun _ => ?_, hall⟩
                cases best with
                | none =>
                  rw [hold] at holder
                  simp [older] at holder
                | some b =>
                  rw [hold] at holder
                  have hle : c.usedAt b ≤ c.usedAt j := by simpa [older] using holder
                  exact (hbest b rfl).trans hle

theorem pickVictim_oldest {c : ExpertCache B} {avoid : List Nat} {i : Nat}
    (h : c.pickVictim avoid = some i) :
    c.keyOf i = .empty ∨
      ((∀ j < c.nSlots, c.keyOf j ≠ .empty) ∧
        ∀ j < c.nSlots, c.Candidate avoid j → c.usedAt i ≤ c.usedAt j) := by
  rcases pickVictimFrom_oldest c avoid _ none none rfl h with hempty | ⟨hfull, hall, -⟩
  · exact .inl hempty
  · exact .inr ⟨fun j hj => hfull j (List.mem_range.mpr hj),
      fun j hj => hall j (List.mem_range.mpr hj)⟩

end ExpertCache

/-! ### Stamps -/

/-- Every stamp was taken from the clock, once. -/
structure Stamped (c : ExpertCache B) : Prop where
  le_clock : ∀ i, c.usedAt i ≤ c.clock
  pos : ∀ i, c.keyOf i ≠ .empty → 0 < c.usedAt i
  distinct : ∀ i j, c.usedAt i = c.usedAt j → 0 < c.usedAt i → i = j

theorem Stamped.congr {c c' : ExpertCache B} (h : Stamped c) (hused : c'.usedAt = c.usedAt)
    (hclock : c'.clock = c.clock) (hkeys : ∀ i, c'.keyOf i ≠ .empty → c.keyOf i ≠ .empty) :
    Stamped c' where
  le_clock i := by
    rw [hused, hclock]
    exact h.le_clock i
  pos i hi := by
    rw [hused]
    exact h.pos i (hkeys i hi)
  distinct := by
    rw [hused]
    exact h.distinct

/-- One slot gets a new stamp from the clock. -/
theorem Stamped.stamp {c c' : ExpertCache B} (h : Stamped c) {slot : Nat}
    (hused : c'.usedAt = Function.update c.usedAt slot (c.clock + 1))
    (hclock : c'.clock = c.clock + 1)
    (hkeys : ∀ i, i ≠ slot → c'.keyOf i ≠ .empty → c.keyOf i ≠ .empty) : Stamped c' where
  le_clock i := by
    have hi := h.le_clock i
    rw [hused, hclock, Function.update_apply]
    split <;> omega
  pos i hi := by
    rw [hused, Function.update_apply]
    split
    · omega
    · rename_i hne
      exact h.pos i (hkeys i hne hi)
  distinct i j heq hpos := by
    have hi := h.le_clock i
    have hj := h.le_clock j
    rw [hused, Function.update_apply] at hpos
    rw [hused, Function.update_apply, Function.update_apply] at heq
    by_cases his : i = slot
    · by_cases hjs : j = slot
      · rw [his, hjs]
      · rw [if_pos his, if_neg hjs] at heq
        omega
    · by_cases hjs : j = slot
      · rw [if_neg his, if_pos hjs] at heq
        omega
      · rw [if_neg his, if_neg hjs] at heq
        rw [if_neg his] at hpos
        exact h.distinct i j heq hpos

theorem emptyCache_stamped (arena : Nat → B) (budget slotBytes nSlots : Nat) :
    Stamped (emptyCache arena budget slotBytes nSlots) where
  le_clock _ := Nat.le_refl _
  pos _ h := absurd rfl h
  distinct _ _ _ h := absurd h (Nat.lt_irrefl _)

/-- The resident keys, the most recently stamped first. -/
structure RecencyOrder (c : ExpertCache B) (order : List Nat) : Prop where
  resident : ∀ k, k ∈ order ↔ (c.slotOf k).isSome
  latest : order.Pairwise fun a b => c.stamp b < c.stamp a

theorem RecencyOrder.nodup {c : ExpertCache B} {order : List Nat} (h : RecencyOrder c order) :
    order.Nodup := by
  apply h.latest.imp
  rintro a b hlt rfl
  exact Nat.lt_irrefl _ hlt

theorem emptyCache_recencyOrder (arena : Nat → B) (budget slotBytes nSlots : Nat) :
    RecencyOrder (emptyCache arena budget slotBytes nSlots) [] where
  resident k := by simp [emptyCache]
  latest := .nil

theorem RecencyOrder.congr {c c' : ExpertCache B} {order : List Nat} (h : RecencyOrder c order)
    (hslotOf : c'.slotOf = c.slotOf) (hused : c'.usedAt = c.usedAt) : RecencyOrder c' order := by
  have hstamp : ∀ k, c'.stamp k = c.stamp k := by
    intro k
    unfold ExpertCache.stamp
    rw [hslotOf, hused]
  refine ⟨?_, ?_⟩
  · rw [hslotOf]
    exact h.resident
  · apply h.latest.imp
    intro a b hlt
    rw [hstamp, hstamp]
    exact hlt

theorem Stamped.stamp_le {c : ExpertCache B} (h : Stamped c) (k : Nat) : c.stamp k ≤ c.clock := by
  unfold ExpertCache.stamp
  split
  · exact Nat.zero_le _
  · exact h.le_clock _

/-- A key that is stamped last comes first. -/
theorem RecencyOrder.cons {c c' : ExpertCache B} {order kept : List Nat} {key : Nat}
    (h : RecencyOrder c order) (hkept : kept.Sublist order)
    (hold : ∀ k ∈ kept, c'.stamp k = c.stamp k) (hlatest : ∀ k ∈ kept, c.stamp k < c'.stamp key)
    (hres : ∀ k, k ∈ key :: kept ↔ (c'.slotOf k).isSome) : RecencyOrder c' (key :: kept) := by
  refine ⟨hres, List.pairwise_cons.mpr ⟨?_, ?_⟩⟩
  · intro k hk
    rw [hold k hk]
    exact hlatest k hk
  · apply (h.latest.sublist hkept).imp_of_mem
    intro a b ha hb hlt
    rw [hold a ha, hold b hb]
    exact hlt

/-! ### How full the cache is -/

/-- The slots of the resident keys and of the reservations are the slots in use. -/
theorem RecencyOrder.length_add {c : ExpertCache B} {W : List PrefetchWork} {order : List Nat}
    (h : RecencyOrder c order) (hc : InFlight s load c W) :
    order.length + W.length =
      ((List.range c.nSlots).filter fun i => c.keyOf i ≠ .empty).length := by
  have hslot : ∀ k ∈ order, ∃ i, c.slotOf k = some i := fun k hk =>
    Option.isSome_iff_exists.mp ((h.resident k).mp hk)
  have hinj : ∀ k ∈ order, ∀ k' ∈ order, (c.slotOf k).getD 0 = (c.slotOf k').getD 0 → k = k' := by
    intro k hk k' hk' heq
    obtain ⟨i, hi⟩ := hslot k hk
    obtain ⟨i', hi'⟩ := hslot k' hk'
    rw [hi, hi'] at heq
    have hkey := hc.slotOf_eq_some.mp hi
    have hkey' := hc.slotOf_eq_some.mp hi'
    obtain rfl : i = i' := heq
    simpa [hkey] using hkey'
  have hnodup : (order.map (fun k => (c.slotOf k).getD 0) ++ W.map (·.slot)).Nodup := by
    refine List.Nodup.append (h.nodup.map_on hinj) hc.slots ?_
    intro i hi hw
    obtain ⟨k, hk, rfl⟩ := List.mem_map.mp hi
    obtain ⟨j, hj⟩ := hslot k hk
    rw [hj] at hw
    have hflight := (hc.flight j).mpr hw
    rw [hc.slotOf_eq_some.mp hj] at hflight
    cases hflight
  have hmem : ∀ i, i ∈ order.map (fun k => (c.slotOf k).getD 0) ++ W.map (·.slot) ↔
      i ∈ (List.range c.nSlots).filter fun i => c.keyOf i ≠ .empty := by
    intro i
    rw [List.mem_append, List.mem_map, ← hc.flight i, List.mem_filter, List.mem_range,
      decide_eq_true_eq]
    constructor
    · rintro (⟨k, hk, rfl⟩ | hflight)
      · obtain ⟨j, hj⟩ := hslot k hk
        have hne : c.keyOf j ≠ .empty := by simp [hc.slotOf_eq_some.mp hj]
        rw [hj]
        exact ⟨hc.bounded j hne, hne⟩
      · have hne : c.keyOf i ≠ .empty := by simp [hflight]
        exact ⟨hc.bounded i hne, hne⟩
    · rintro ⟨-, hne⟩
      cases hi : c.keyOf i with
      | empty => exact absurd hi hne
      | inflight => exact .inr rfl
      | key k =>
        have hk := hc.slotOf_eq_some.mpr hi
        exact .inl ⟨k, (h.resident k).mpr (by simp [hk]), by simp [hk]⟩
  have hlen := ((List.perm_ext_iff_of_nodup hnodup
    (List.nodup_range.filter _)).mpr hmem).length_eq
  rw [← hlen, List.length_append, List.length_map, List.length_map]

theorem RecencyOrder.length_le {c : ExpertCache B} {W : List PrefetchWork} {order : List Nat}
    (h : RecencyOrder c order) (hc : InFlight s load c W) :
    order.length + W.length ≤ c.nSlots := by
  have hle := List.length_filter_le (fun i => decide (c.keyOf i ≠ .empty)) (List.range c.nSlots)
  rw [List.length_range] at hle
  rw [h.length_add hc]
  exact hle

/-- Without an empty slot the cache is full. -/
theorem RecencyOrder.length_full {c : ExpertCache B} {W : List PrefetchWork} {order : List Nat}
    (h : RecencyOrder c order) (hc : InFlight s load c W)
    (hfull : ∀ i < c.nSlots, c.keyOf i ≠ .empty) : order.length + W.length = c.nSlots := by
  rw [h.length_add hc, List.filter_eq_self.mpr, List.length_range]
  intro i hi
  simpa using hfull i (List.mem_range.mp hi)

theorem RecencyOrder.length_lt {c : ExpertCache B} {W : List PrefetchWork} {order : List Nat}
    (h : RecencyOrder c order) (hc : InFlight s load c W) {i : Nat} (hi : i < c.nSlots)
    (hempty : c.keyOf i = .empty) : order.length + W.length < c.nSlots := by
  rw [h.length_add hc]
  have hlt := List.length_filter_lt_length_iff_exists.mpr
    (⟨i, List.mem_range.mpr hi, by simp [hempty]⟩ :
      ∃ x ∈ List.range c.nSlots, ¬ (decide (c.keyOf x ≠ .empty) = true))
  rwa [List.length_range] at hlt

/-! ### Reservations -/

/-- No key is pinned. -/
def NoPins (c : ExpertCache B) : Prop := ∀ k, c.isPinned k = false

theorem NoPins.congr {c c' : ExpertCache B} (h : NoPins c) (hpinned : c'.pinnedOf = c.pinnedOf) :
    NoPins c' := by
  intro k
  have hk := h k
  unfold isPinned at hk ⊢
  rwa [hpinned]

theorem reserveSlot_stamped {c : ExpertCache B} (h : Stamped c) (slot : Nat) :
    Stamped (c.reserveSlot slot) := by
  have hused : (c.reserveSlot slot).usedAt = Function.update c.usedAt slot (c.clock + 1) := by
    unfold reserveSlot evict
    split <;> rfl
  have hclock : (c.reserveSlot slot).clock = c.clock + 1 := by
    unfold reserveSlot evict
    split <;> rfl
  refine h.stamp hused hclock ?_
  intro i hi hne
  rwa [reserveSlot_keyOf, Function.update_of_ne hi] at hne

theorem reserveSlot_usedAt (c : ExpertCache B) (slot : Nat) :
    (c.reserveSlot slot).usedAt = Function.update c.usedAt slot (c.clock + 1) := by
  unfold reserveSlot evict
  split <;> rfl

theorem reserveSlot_clock (c : ExpertCache B) (slot : Nat) :
    (c.reserveSlot slot).clock = c.clock + 1 := by
  unfold reserveSlot evict
  split <;> rfl

/-- Keys that stay where they were keep their place in the order. -/
theorem RecencyOrder.keep {c c' : ExpertCache B} {order kept : List Nat} {slot : Nat}
    (h : RecencyOrder c order) (hkept : kept.Sublist order)
    (hslotOf : ∀ k ∈ kept, c'.slotOf k = c.slotOf k) (hslot : ∀ k ∈ kept, c.slotOf k ≠ some slot)
    (hused : ∀ i, i ≠ slot → c'.usedAt i = c.usedAt i)
    (hres : ∀ k, k ∈ kept ↔ (c'.slotOf k).isSome) : RecencyOrder c' kept := by
  have hstamp : ∀ k ∈ kept, c'.stamp k = c.stamp k := by
    intro k hk
    unfold ExpertCache.stamp
    rw [hslotOf k hk]
    cases hi : c.slotOf k with
    | none => rfl
    | some i =>
      apply hused
      rintro rfl
      exact hslot k hk hi
  refine ⟨hres, (h.latest.sublist hkept).imp_of_mem ?_⟩
  intro a b ha hb hlt
  rw [hstamp a ha, hstamp b hb]
  exact hlt

/-- A reservation takes an empty slot, or the oldest key that it may take. -/
theorem RecencyOrder.reserve {c : ExpertCache B} {W : List PrefetchWork} {order avoid : List Nat}
    {slot : Nat} (h : RecencyOrder c order) (hc : InFlight s load c W) (hpins : NoPins c)
    (hpick : c.pickVictim avoid = some slot) :
    (RecencyOrder (c.reserveSlot slot) order ∧ order.length + W.length < c.nSlots) ∨
      ∃ v ∈ order, v ∉ avoid ∧ (∀ k ∈ order, k ∉ avoid → c.stamp v ≤ c.stamp k) ∧
        RecencyOrder (c.reserveSlot slot) (order.erase v) ∧
        order.length + W.length = c.nSlots := by
  obtain ⟨hlt, hfree, hallowed⟩ := pickVictim_spec hpick
  have hused : ∀ i, i ≠ slot → (c.reserveSlot slot).usedAt i = c.usedAt i := by
    intro i hi
    rw [reserveSlot_usedAt, Function.update_of_ne hi]
  cases hk : c.keyOf slot with
  | inflight => exact absurd hk hfree
  | empty =>
    have hslotOf : (c.reserveSlot slot).slotOf = c.slotOf := by
      rw [reserveSlot_slotOf, evict_slotOf_of_ne (by simp [hk])]
    refine .inl ⟨h.keep (List.Sublist.refl _) (fun k _ => by rw [hslotOf]) ?_ hused ?_,
      h.length_lt hc hlt hk⟩
    · intro k _ hslot
      rw [hc.slotOf_eq_some.mp hslot] at hk
      cases hk
    · rw [hslotOf]
      exact h.resident
  | key v =>
    have hv : c.slotOf v = some slot := hc.slotOf_eq_some.mpr hk
    have hslotOf : (c.reserveSlot slot).slotOf = Function.update c.slotOf v none := by
      rw [reserveSlot_slotOf, evict_slotOf_key hk]
    have hne : ∀ k ∈ order.erase v, k ≠ v := by
      rintro k hmem rfl
      exact h.nodup.not_mem_erase hmem
    rcases pickVictim_oldest hpick with hempty | ⟨hfull, hall⟩
    · rw [hk] at hempty
      cases hempty
    refine .inr ⟨v, (h.resident v).mpr (by simp [hv]), (hallowed v hk).2, ?_, ?_,
      h.length_full hc hfull⟩
    · intro k hmem havoid
      obtain ⟨i, hi⟩ := Option.isSome_iff_exists.mp ((h.resident k).mp hmem)
      have hki := hc.slotOf_eq_some.mp hi
      rw [stamp_of_slotOf hv, stamp_of_slotOf hi]
      exact hall i (hc.bounded i (by simp [hki])) ⟨k, hki, hpins k, havoid⟩
    · refine h.keep List.erase_sublist ?_ ?_ hused ?_
      · intro k hmem
        rw [hslotOf, Function.update_of_ne (hne k hmem)]
      · intro k hmem hslot
        have hki := hc.slotOf_eq_some.mp hslot
        rw [hk] at hki
        obtain rfl : v = k := by simpa using hki
        exact hne v hmem rfl
      · intro k
        rw [hslotOf, Function.update_apply, h.nodup.mem_erase_iff]
        split
        · rename_i he
          simp [he]
        · rename_i he
          rw [h.resident]
          exact ⟨fun hmem => hmem.2, fun hmem => ⟨he, hmem⟩⟩

/-- The oldest key is the one at the end. -/
theorem erase_oldest {stamp : Nat → Nat} {keys : List Nat} {v : Nat}
    (h : keys.Pairwise fun a b => stamp b < stamp a) (hv : v ∈ keys)
    (hmin : ∀ k ∈ keys, stamp v ≤ stamp k) : keys.erase v = keys.dropLast := by
  have hne : keys ≠ [] := List.ne_nil_of_mem hv
  have hsplit := List.dropLast_append_getLast hne
  have hlast := hmin _ (List.getLast_mem hne)
  rw [← hsplit] at h
  have hnot : v ∉ keys.dropLast := by
    intro hmem
    have hlt := (List.pairwise_append.mp h).2.2 v hmem _ (List.mem_singleton_self _)
    omega
  have heq : v = keys.getLast hne := by
    rw [← hsplit] at hv
    exact List.mem_singleton.mp ((List.mem_append.mp hv).resolve_left hnot)
  conv_lhs => rw [← hsplit]
  rw [List.erase_append_right _ hnot, ← heq, List.erase_cons_head, List.append_nil]

/-! ### One `get` -/

theorem exists_pick {c : ExpertCache B} (hc : RepInv s load c) (hpins : NoPins c)
    (hslots : 0 < c.nSlots) : ∃ slot, c.pickVictim [] = some slot := by
  apply pickVictim_isSome hslots
  refine ⟨?_, fun k _ => ⟨hpins k, List.not_mem_nil⟩⟩
  intro hflight
  have hmem := (hc.flight 0).mp hflight
  simp at hmem

/-- A slot without a key is published under an absent key, with the latest stamp. -/
theorem RecencyOrder.publish {c c' : ExpertCache B} {order : List Nat} {slot key : Nat}
    (h : RecencyOrder c order) (habs : c.slotOf key = none)
    (hfree : ∀ k, c.slotOf k ≠ some slot) (hlatest : ∀ k, c.stamp k < c'.usedAt slot)
    (hslotOf : c'.slotOf = Function.update c.slotOf key (some slot))
    (hused : ∀ i, i ≠ slot → c'.usedAt i = c.usedAt i) : RecencyOrder c' (key :: order) := by
  have hnotin : key ∉ order := by
    intro hmem
    have hsome := (h.resident key).mp hmem
    rw [habs] at hsome
    cases hsome
  have hold : ∀ k ∈ order, c'.stamp k = c.stamp k := by
    intro k hk
    have hne : k ≠ key := by
      rintro rfl
      exact hnotin hk
    unfold ExpertCache.stamp
    rw [hslotOf, Function.update_of_ne hne]
    cases hi : c.slotOf k with
    | none => rfl
    | some i =>
      apply hused
      rintro rfl
      exact hfree k hi
  have hnew : c'.stamp key = c'.usedAt slot :=
    stamp_of_slotOf (by rw [hslotOf, Function.update_self])
  refine h.cons (List.Sublist.refl _) hold ?_ ?_
  · intro k _
    rw [hnew]
    exact hlatest k
  · intro k
    rw [hslotOf, Function.update_apply, List.mem_cons]
    split
    · rename_i he
      simp [he]
    · rename_i he
      rw [← h.resident]
      exact or_iff_right he

/-- A hit moves its key to the front. -/
theorem RecencyOrder.touch {c : ExpertCache B} {order : List Nat} {slot key : Nat}
    (h : RecencyOrder c order) (hc : RepInv s load c) (hs : Stamped c)
    (hkey : c.slotOf key = some slot) :
    RecencyOrder (Kvl.touch c slot) (Recency.request order key) := by
  have hused : (Kvl.touch c slot).usedAt = Function.update c.usedAt slot (c.clock + 1) := rfl
  have hslotOf : (Kvl.touch c slot).slotOf = c.slotOf := rfl
  have hmem : key ∈ order := (h.resident key).mpr (by simp [hkey])
  have hnew : (Kvl.touch c slot).stamp key = c.clock + 1 := by
    rw [stamp_of_slotOf (hslotOf ▸ hkey), hused, Function.update_self]
  refine h.cons List.erase_sublist ?_ ?_ ?_
  · intro k hk
    unfold ExpertCache.stamp
    rw [hslotOf]
    cases hi : c.slotOf k with
    | none => rfl
    | some i =>
      have hne : i ≠ slot := by
        rintro rfl
        have hki := hc.slotOf_eq_some.mp hi
        rw [hc.slotOf_eq_some.mp hkey] at hki
        obtain rfl : key = k := by simpa using hki
        exact h.nodup.not_mem_erase hk
      rw [hused]
      exact Function.update_of_ne hne _ _
  · intro k _
    rw [hnew]
    exact Nat.lt_succ_of_le (hs.stamp_le k)
  · intro k
    have hiff := @Recency.mem_request Nat _ order key k
    unfold Recency.request at hiff
    rw [hiff, hslotOf, ← h.resident]
    constructor
    · rintro (rfl | hk)
      · exact hmem
      · exact hk
    · exact .inr

/-- What a load of `get` leaves in the tables. -/
theorem missed_tables (c : ExpertCache B) (slot key r : Nat) :
    let res := settleGet s (loadIntoSlot s load (c.reserveSlot slot) slot r .delivered) slot key r true
    res.cache.slotOf = Function.update (c.reserveSlot slot).slotOf key (some slot) ∧
      res.cache.usedAt = (c.reserveSlot slot).usedAt ∧ res.cache.clock = (c.reserveSlot slot).clock ∧
      res.cache.keyOf = Function.update (c.reserveSlot slot).keyOf slot (.key key) ∧
      res.cache.misses = c.misses := by
  have hmisses : (c.reserveSlot slot).misses = c.misses := by
    unfold reserveSlot evict
    split <;> rfl
  exact ⟨rfl, rfl, rfl, rfl, hmisses⟩

/-- One `get` of a key with a record. -/
structure GetServes (c : ExpertCache B) (order : List Nat) (key : Nat) (c' : ExpertCache B) :
    Prop where
  recency : RecencyOrder c' (Recency.serve c.nSlots order key)
  stamped : Stamped c'
  misses : c'.misses = c.misses + if key ∈ order then 0 else 1

theorem get_serves {c : ExpertCache B} {order : List Nat} {layer expert : Int} {key r : Nat}
    (hc : RepInv s load c) (hs : Stamped c) (h : RecencyOrder c order) (hpins : NoPins c)
    (hslots : 0 < c.nSlots) (hkey : keyFor s layer expert = some key)
    (hrec : s.recordAt key = some r) (hfits : (s.record r).readBytes.toNat ≤ c.slotBytes) :
    GetServes c order key (kvlExpertCacheGet s load c layer expert .delivered).cache := by
  have hlen : order.length ≤ c.nSlots := h.length_le hc
  have hcase := get_cases s load c layer expert .delivered
  generalize kvlExpertCacheGet s load c layer expert .delivered = res at hcase ⊢
  cases hcase with
  | rejected hnone =>
    rw [hkey] at hnone
    cases hnone
  | @hit key' slot hkey' hres =>
    obtain rfl : key = key' := by simpa [hkey] using hkey'
    have hslot := (residentSlot_eq_some hc).mp hres
    have hmem : key ∈ order := (h.resident key).mpr (by simp [hslot])
    have hcount : RecencyOrder (countRequest c) order := h.congr rfl rfl
    have hstamp : Stamped (countRequest c) := hs.congr rfl rfl fun _ hi => hi
    refine ⟨?_, hstamp.stamp rfl rfl fun _ _ hi => hi, ?_⟩
    · rw [Recency.serve_of_mem hmem hlen]
      exact hcount.touch (hc.congr rfl rfl rfl rfl rfl rfl) hstamp hslot
    · rw [if_pos hmem]
      rfl
  | @refused key' hkey' habs hwhy =>
    obtain rfl : key = key' := by simpa [hkey] using hkey'
    obtain ⟨slot, hpick⟩ := exists_pick hc hpins hslots
    rcases hwhy r hrec with hbig | hnone
    · omega
    · rw [hpick] at hnone
      cases hnone
  | @missed key' slot r' hkey' habs hrec' hfits' hpick =>
    obtain rfl : key = key' := by simpa [hkey] using hkey'
    have hnone := (residentSlot_eq_none hc).mp habs
    have hnotin : key ∉ order := by
      intro hmem
      have hsome := (h.resident key).mp hmem
      rw [hnone] at hsome
      cases hsome
    have hcount : RecencyOrder (countMiss (countRequest c)) order := h.congr rfl rfl
    have hstamp : Stamped (countMiss (countRequest c)) := hs.congr rfl rfl fun _ hi => hi
    have hrep : RepInv s load (countMiss (countRequest c)) := hc.counted
    have hflight := hc.reserved hkey' habs hrec' hfits' hpick true
    rw [← pickVictim_counters] at hpick
    generalize hd : countMiss (countRequest c) = d at hcount hstamp hrep hflight hpick
    have hdslots : d.nSlots = c.nSlots := by rw [← hd]; rfl
    have hdmisses : d.misses = c.misses + 1 := by rw [← hd]; rfl
    have hok : (ReadResult.delivered : ReadResult B).ok = true := rfl
    rw [hok]
    obtain ⟨hslotOf, hused, hclock, hkeyOf, hmisses⟩ :=
      @missed_tables B s load d slot key r'
    have hstamp' := reserveSlot_stamped hstamp slot
    have hflightSlot : (d.reserveSlot slot).keyOf slot = .inflight := by
      rw [reserveSlot_keyOf, Function.update_self]
    have hfree : ∀ k, (d.reserveSlot slot).slotOf k ≠ some slot := by
      intro k hk
      rw [hflight.slotOf_eq_some.mp hk] at hflightSlot
      cases hflightSlot
    have hlatest : ∀ k, (d.reserveSlot slot).stamp k < (d.reserveSlot slot).usedAt slot := by
      intro k
      rw [reserveSlot_usedAt, Function.update_self]
      unfold ExpertCache.stamp
      split
      · exact Nat.succ_pos _
      · rename_i i hi
        have hne : i ≠ slot := by
          rintro rfl
          exact hfree k hi
        rw [reserveSlot_usedAt, Function.update_of_ne hne]
        exact Nat.lt_succ_of_le (hstamp.le_clock i)
    have hpublish : ∀ kept, RecencyOrder (d.reserveSlot slot) kept →
        RecencyOrder (settleGet s (loadIntoSlot s load (d.reserveSlot slot) slot r' .delivered) slot
          key r' true).cache (key :: kept) := by
      intro kept hkept
      apply hkept.publish (hflight.absent _ List.mem_cons_self) hfree
      · rw [hused]
        exact hlatest
      · exact hslotOf
      · intro i _
        rw [hused]
    refine ⟨?_, ?_, ?_⟩
    · rcases hcount.reserve hrep (hpins.congr (by rw [← hd]; rfl)) hpick with
        ⟨horder, hlt⟩ | ⟨v, hv, -, hmin, horder, hfull⟩
      · rw [List.length_nil, Nat.add_zero, hdslots] at hlt
        rw [Recency.serve_of_notMem_lt hnotin hlt]
        exact hpublish _ horder
      · rw [List.length_nil, Nat.add_zero, hdslots] at hfull
        rw [Recency.serve_of_notMem_full hnotin hfull hslots,
          ← erase_oldest hcount.latest hv fun k hk => hmin k hk List.not_mem_nil]
        exact hpublish _ horder
    · refine hstamp'.congr hused hclock ?_
      intro i hi
      rw [hkeyOf, Function.update_apply] at hi
      split at hi
      · rename_i he
        rw [he, hflightSlot]
        simp
      · exact hi
    · rw [if_neg hnotin]
      exact hmisses.trans hdmisses

end Kvl

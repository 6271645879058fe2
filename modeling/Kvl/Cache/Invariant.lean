import Kvl.Cache.Model
import Kvl.Lib.Tables

/-!
# The representation invariant of the expert cache

`InFlight` is the invariant in the form it has while reservations are open:
`W` lists the slots that are marked in flight, with the key each of them is
reserved for. The invariant between calls is the case of no reservation.
A reservation, a fill, a publish and a release each move `W` by one entry,
and every call is a sequence of these.
-/

namespace Kvl

set_option autoImplicit false

open ExpertCache Tables

variable {B : Type*}

def SlotKey.toKey : SlotKey → Option Nat
  | .key k => some k
  | _ => none

@[simp] theorem SlotKey.toKey_eq_some {x : SlotKey} {k : Nat} :
    x.toKey = some k ↔ x = .key k := by
  cases x <;> simp [SlotKey.toKey]

theorem toKey_update (keyOf : Nat → SlotKey) (slot : Nat) (x : SlotKey) :
    (fun i => (Function.update keyOf slot x i).toKey) =
      Function.update (fun i => (keyOf i).toKey) slot x.toKey :=
  Function.comp_update SlotKey.toKey keyOf slot x

namespace ExpertCache

@[simp] theorem evict_keyOf (c : ExpertCache B) (slot : Nat) :
    (c.evict slot).keyOf = c.keyOf := by unfold evict; split <;> rfl

@[simp] theorem evict_arena (c : ExpertCache B) (slot : Nat) :
    (c.evict slot).arena = c.arena := by unfold evict; split <;> rfl

@[simp] theorem evict_nSlots (c : ExpertCache B) (slot : Nat) :
    (c.evict slot).nSlots = c.nSlots := by unfold evict; split <;> rfl

@[simp] theorem evict_slotBytes (c : ExpertCache B) (slot : Nat) :
    (c.evict slot).slotBytes = c.slotBytes := by unfold evict; split <;> rfl

@[simp] theorem evict_recordOfSlot (c : ExpertCache B) (slot : Nat) :
    (c.evict slot).recordOfSlot = c.recordOfSlot := by unfold evict; split <;> rfl

@[simp] theorem evict_pinnedOf (c : ExpertCache B) (slot : Nat) :
    (c.evict slot).pinnedOf = c.pinnedOf := by unfold evict; split <;> rfl

@[simp] theorem reserveSlot_keyOf (c : ExpertCache B) (slot : Nat) :
    (c.reserveSlot slot).keyOf = Function.update c.keyOf slot .inflight := by simp [reserveSlot]

@[simp] theorem reserveSlot_arena (c : ExpertCache B) (slot : Nat) :
    (c.reserveSlot slot).arena = c.arena := by simp [reserveSlot]

@[simp] theorem reserveSlot_nSlots (c : ExpertCache B) (slot : Nat) :
    (c.reserveSlot slot).nSlots = c.nSlots := by simp [reserveSlot]

@[simp] theorem reserveSlot_slotBytes (c : ExpertCache B) (slot : Nat) :
    (c.reserveSlot slot).slotBytes = c.slotBytes := by simp [reserveSlot]

@[simp] theorem reserveSlot_pinnedOf (c : ExpertCache B) (slot : Nat) :
    (c.reserveSlot slot).pinnedOf = c.pinnedOf := by simp [reserveSlot]

@[simp] theorem reserveSlot_recordOfSlot (c : ExpertCache B) (slot : Nat) :
    (c.reserveSlot slot).recordOfSlot = Function.update c.recordOfSlot slot none := by
  simp [reserveSlot]

@[simp] theorem reserveSlot_slotOf (c : ExpertCache B) (slot : Nat) :
    (c.reserveSlot slot).slotOf = (c.evict slot).slotOf := rfl

theorem evict_slotOf_key {c : ExpertCache B} {slot k : Nat} (h : c.keyOf slot = .key k) :
    (c.evict slot).slotOf = Function.update c.slotOf k none := by simp [evict, h]

theorem evict_slotOf_of_ne {c : ExpertCache B} {slot : Nat} (h : ∀ k, c.keyOf slot ≠ .key k) :
    (c.evict slot).slotOf = c.slotOf := by
  unfold evict
  split
  · exact absurd ‹_› (h _)
  · rfl

/-- Eviction only ever clears entries of the key table. -/
theorem evict_slotOf_le (c : ExpertCache B) (slot k i : Nat)
    (h : (c.evict slot).slotOf k = some i) : c.slotOf k = some i := by
  unfold evict at h
  split at h
  · simp only [Function.update_apply] at h
    split at h
    · simp at h
    · exact h
  · exact h

theorem pickVictim_congr {c c' : ExpertCache B} (avoid : List Nat) (hslots : c'.nSlots = c.nSlots)
    (hkeyOf : c'.keyOf = c.keyOf) (husedAt : c'.usedAt = c.usedAt)
    (hpinned : c'.pinnedOf = c.pinnedOf) : c'.pickVictim avoid = c.pickVictim avoid := by
  have hpin : ∀ k, c'.isPinned k = c.isPinned k := by simp [isPinned, hpinned]
  have go : ∀ slots best oldest,
      c'.pickVictimFrom avoid slots best oldest = c.pickVictimFrom avoid slots best oldest := by
    intro slots
    induction slots with
    | nil => exact fun _ _ => rfl
    | cons i rest ih =>
      intro best oldest
      simp only [pickVictimFrom, ih, hpin, hkeyOf, husedAt]
  unfold pickVictim
  rw [go, hslots]

/-- A slot the victim search may hand out. -/
def Victim (c : ExpertCache B) (avoid : List Nat) (i : Nat) : Prop :=
  c.keyOf i ≠ .inflight ∧ ∀ k, c.keyOf i = .key k → c.isPinned k = false ∧ k ∉ avoid

theorem keyInList_iff (key : Nat) (keys : List Nat) : keyInList key keys = true ↔ key ∈ keys := by
  simp [keyInList]

theorem pickVictimFrom_spec (c : ExpertCache B) (avoid slots : List Nat) (best oldest : Option Nat)
    {i : Nat} (h : c.pickVictimFrom avoid slots best oldest = some i) :
    best = some i ∨ (i ∈ slots ∧ c.Victim avoid i) := by
  induction slots generalizing best oldest with
  | nil => exact .inl h
  | cons j rest ih =>
    have skip : ∀ {best oldest}, c.pickVictimFrom avoid rest best oldest = some i →
        best = some i ∨ (i ∈ j :: rest ∧ c.Victim avoid i) := by
      intro best oldest h
      exact (ih best oldest h).imp_right fun hr => ⟨List.mem_cons_of_mem j hr.1, hr.2⟩
    unfold pickVictimFrom at h
    split at h
    · exact skip h
    · rename_i hempty
      obtain rfl := Option.some.inj h
      exact .inr ⟨List.mem_cons_self, by simp [hempty], by simp [hempty]⟩
    · rename_i k hk
      split at h
      · exact skip h
      · rename_i hpin
        split at h
        · exact skip h
        · rename_i havoid
          split at h
          · rcases skip h with he | hr
            · obtain rfl := Option.some.inj he
              refine .inr ⟨List.mem_cons_self, by simp [hk], ?_⟩
              intro k' hk'
              obtain rfl : k = k' := by simpa [hk] using hk'
              exact ⟨by simpa using hpin, fun hm => havoid ((keyInList_iff _ _).mpr hm)⟩
            · exact .inr hr
          · exact skip h

theorem pickVictim_spec {c : ExpertCache B} {avoid : List Nat} {i : Nat}
    (h : c.pickVictim avoid = some i) : i < c.nSlots ∧ c.Victim avoid i := by
  rcases pickVictimFrom_spec c avoid _ _ _ h with h | ⟨hm, hv⟩
  · simp at h
  · exact ⟨List.mem_range.mp hm, hv⟩

end ExpertCache

section Invariant
variable (s : ExpertStore) (load : Nat → B → B)

/-- The memory some complete read of record `r` leaves in a slot. -/
def Delivered (r : Nat) (m : B) : Prop := ∃ old, m = load r old

/-- A key names a present record that fits a slot. -/
structure Loadable (slotBytes k r : Nat) : Prop where
  key : ∃ layer expert, keyFor s layer expert = some k
  record : s.recordAt k = some r
  fits : (s.record r).readBytes.toNat ≤ slotBytes

structure InFlight (c : ExpertCache B) (W : List PrefetchWork) : Prop where
  inverse : Inverse c.slotOf fun i => (c.keyOf i).toKey
  bounded : ∀ i, c.keyOf i ≠ .empty → i < c.nSlots
  flight : ∀ i, c.keyOf i = .inflight ↔ i ∈ W.map (·.slot)
  slots : (W.map (·.slot)).Nodup
  keys : (W.map (·.key)).Nodup
  absent : ∀ w ∈ W, c.slotOf w.key = none
  loadable : ∀ w ∈ W, Loadable s c.slotBytes w.key w.r
  holds : ∀ i k, c.keyOf i = .key k → ∃ r, Loadable s c.slotBytes k r ∧
    c.recordOfSlot i = some r ∧ Delivered load r (c.arena i)

/-- The invariant between calls. -/
def RepInv (c : ExpertCache B) : Prop := InFlight s load c []

variable {s load} {c c' : ExpertCache B} {w : PrefetchWork} {W W' : List PrefetchWork}

theorem InFlight.slotOf_eq_some (h : InFlight s load c W) {k i : Nat} :
    c.slotOf k = some i ↔ c.keyOf i = .key k := by
  rw [h.inverse k i, SlotKey.toKey_eq_some]

theorem InFlight.perm (h : InFlight s load c W) (hp : W.Perm W') : InFlight s load c W' where
  inverse := h.inverse
  bounded := h.bounded
  flight i := (h.flight i).trans (hp.map _).mem_iff
  slots := (hp.map _).nodup_iff.mp h.slots
  keys := (hp.map _).nodup_iff.mp h.keys
  absent w hw := h.absent w (hp.mem_iff.mpr hw)
  loadable w hw := h.loadable w (hp.mem_iff.mpr hw)
  holds := h.holds

theorem InFlight.reserve (h : InFlight s load c W) {avoid : List Nat} {slot key r : Nat}
    (hpick : c.pickVictim avoid = some slot) (habs : c.slotOf key = none)
    (hnew : key ∉ W.map (·.key)) (hload : Loadable s c.slotBytes key r) (got : Bool) :
    InFlight s load (c.reserveSlot slot) (W ++ [⟨slot, key, r, got⟩]) := by
  obtain ⟨hlt, hfree, _⟩ := pickVictim_spec hpick
  have hold : slot ∉ W.map (·.slot) := fun hm => hfree ((h.flight slot).mpr hm)
  refine ⟨?_, ?_, ?_, ?_, ?_, ?_, ?_, ?_⟩
  · simp only [reserveSlot_slotOf, reserveSlot_keyOf, toKey_update]
    cases hk : c.keyOf slot with
    | key k =>
      rw [evict_slotOf_key hk]
      exact h.inverse.unbind (h.slotOf_eq_some.mpr hk)
    | empty =>
      rw [evict_slotOf_of_ne (by simp [hk])]
      have hn : (fun i => (c.keyOf i).toKey) slot = SlotKey.toKey .inflight := by simp [hk, SlotKey.toKey]
      rw [← hn, Function.update_eq_self]
      exact h.inverse
    | inflight => exact absurd hk hfree
  · intro i hi
    by_cases he : i = slot
    · subst i
      simpa using hlt
    · simp only [reserveSlot_keyOf, Function.update_of_ne he] at hi
      simpa using h.bounded i hi
  · intro i
    by_cases he : i = slot
    · subst i
      simp
    · simp only [reserveSlot_keyOf, Function.update_of_ne he, h.flight i, List.map_append,
        List.mem_append, List.map_cons, List.map_nil, List.mem_singleton, he, or_false]
  · simpa [List.nodup_append] using ⟨h.slots, fun w hw he => hold (List.mem_map.mpr ⟨w, hw, he⟩)⟩
  · simpa [List.nodup_append] using ⟨h.keys, fun w hw he => hnew (List.mem_map.mpr ⟨w, hw, he⟩)⟩
  · intro w hw
    have hnone : c.slotOf w.key = none := by
      rcases List.mem_append.mp hw with hw | hw
      · exact h.absent w hw
      · rw [List.mem_singleton.mp hw]
        exact habs
    cases hs : (c.reserveSlot slot).slotOf w.key with
    | none => rfl
    | some i =>
      have := evict_slotOf_le c slot w.key i hs
      rw [hnone] at this
      simp at this
  · intro w hw
    rcases List.mem_append.mp hw with hw | hw
    · simpa using h.loadable w hw
    · rw [List.mem_singleton.mp hw]
      simpa using hload
  · intro i k hk
    by_cases he : i = slot
    · subst i
      simp at hk
    · simp only [reserveSlot_keyOf, Function.update_of_ne he] at hk
      simpa [Function.update_of_ne he] using h.holds i k hk

/-- Only memory of slots in flight may change while they are in flight. -/
theorem InFlight.refill (h : InFlight s load c W) {arena : Nat → B}
    (harena : ∀ i k, c.keyOf i = .key k → arena i = c.arena i) :
    InFlight s load { c with arena := arena } W where
  inverse := h.inverse
  bounded := h.bounded
  flight := h.flight
  slots := h.slots
  keys := h.keys
  absent := h.absent
  loadable := h.loadable
  holds i k hk := by
    obtain ⟨r, hr, hrec, hd⟩ := h.holds i k hk
    exact ⟨r, hr, hrec, by simpa only [harena i k hk] using hd⟩

/-- The counters, the clock and the pins are not part of the representation. -/
theorem InFlight.congr (h : InFlight s load c W) (harena : c'.arena = c.arena)
    (hslots : c'.nSlots = c.nSlots) (hbytes : c'.slotBytes = c.slotBytes)
    (hslotOf : c'.slotOf = c.slotOf) (hkeyOf : c'.keyOf = c.keyOf)
    (hrec : c'.recordOfSlot = c.recordOfSlot) : InFlight s load c' W := by
  refine ⟨?_, ?_, ?_, h.slots, h.keys, ?_, ?_, ?_⟩
  · rw [hslotOf, hkeyOf]
    exact h.inverse
  · rw [hkeyOf, hslots]
    exact h.bounded
  · rw [hkeyOf]
    exact h.flight
  · rw [hslotOf]
    exact h.absent
  · rw [hbytes]
    exact h.loadable
  · rw [hkeyOf, hbytes, hrec, harena]
    exact h.holds

theorem InFlight.head_slot (h : InFlight s load c (w :: W)) : c.keyOf w.slot = .inflight :=
  (h.flight w.slot).mpr (by simp)

theorem InFlight.publish (h : InFlight s load c (w :: W)) (hd : Delivered load w.r (c.arena w.slot))
    (harena : c'.arena = c.arena) (hslots : c'.nSlots = c.nSlots)
    (hbytes : c'.slotBytes = c.slotBytes)
    (hslotOf : c'.slotOf = Function.update c.slotOf w.key (some w.slot))
    (hkeyOf : c'.keyOf = Function.update c.keyOf w.slot (.key w.key))
    (hrec : c'.recordOfSlot = Function.update c.recordOfSlot w.slot (some w.r)) :
    InFlight s load c' W := by
  have hin := h.head_slot
  have hslotsNd := List.nodup_cons.mp h.slots
  have hkeysNd := List.nodup_cons.mp h.keys
  refine ⟨?_, ?_, ?_, hslotsNd.2, hkeysNd.2, ?_, ?_, ?_⟩
  · rw [hslotOf, hkeyOf, toKey_update]
    exact h.inverse.bind (h.absent w List.mem_cons_self) (by simp [hin, SlotKey.toKey])
  · intro i hi
    rw [hslots]
    by_cases he : i = w.slot
    · subst i
      exact h.bounded w.slot (by simp [hin])
    · rw [hkeyOf, Function.update_of_ne he] at hi
      exact h.bounded i hi
  · intro i
    by_cases he : i = w.slot
    · subst i
      simp only [hkeyOf, Function.update_self, reduceCtorEq, false_iff]
      exact hslotsNd.1
    · rw [hkeyOf, Function.update_of_ne he, h.flight i]
      simp [he]
  · intro v hv
    have hne : v.key ≠ w.key := fun he => hkeysNd.1 (List.mem_map.mpr ⟨v, hv, he⟩)
    rw [hslotOf, Function.update_of_ne hne]
    exact h.absent v (List.mem_cons_of_mem w hv)
  · intro v hv
    rw [hbytes]
    exact h.loadable v (List.mem_cons_of_mem w hv)
  · intro i k hk
    by_cases he : i = w.slot
    · subst i
      obtain rfl : w.key = k := by simpa [hkeyOf] using hk
      refine ⟨w.r, hbytes ▸ h.loadable w List.mem_cons_self, by simp [hrec], ?_⟩
      rwa [harena]
    · rw [hkeyOf, Function.update_of_ne he] at hk
      rw [hbytes, hrec, harena, Function.update_of_ne he]
      exact h.holds i k hk

theorem InFlight.release (h : InFlight s load c (w :: W))
    (harena : c'.arena = c.arena) (hslots : c'.nSlots = c.nSlots)
    (hbytes : c'.slotBytes = c.slotBytes) (hslotOf : c'.slotOf = c.slotOf)
    (hkeyOf : c'.keyOf = Function.update c.keyOf w.slot .empty)
    (hrec : ∀ i, i ≠ w.slot → c'.recordOfSlot i = c.recordOfSlot i) :
    InFlight s load c' W := by
  have hin := h.head_slot
  have hslotsNd := List.nodup_cons.mp h.slots
  refine ⟨?_, ?_, ?_, hslotsNd.2, (List.nodup_cons.mp h.keys).2, ?_, ?_, ?_⟩
  · rw [hslotOf, hkeyOf, toKey_update]
    have hn : (fun i => (c.keyOf i).toKey) w.slot = SlotKey.toKey .empty := by
      simp [hin, SlotKey.toKey]
    rw [← hn, Function.update_eq_self]
    exact h.inverse
  · intro i hi
    rw [hslots]
    by_cases he : i = w.slot
    · subst i
      simp [hkeyOf] at hi
    · rw [hkeyOf, Function.update_of_ne he] at hi
      exact h.bounded i hi
  · intro i
    by_cases he : i = w.slot
    · subst i
      simp only [hkeyOf, Function.update_self, reduceCtorEq, false_iff]
      exact hslotsNd.1
    · rw [hkeyOf, Function.update_of_ne he, h.flight i]
      simp [he]
  · intro v hv
    rw [hslotOf]
    exact h.absent v (List.mem_cons_of_mem w hv)
  · intro v hv
    rw [hbytes]
    exact h.loadable v (List.mem_cons_of_mem w hv)
  · intro i k hk
    by_cases he : i = w.slot
    · subst i
      simp [hkeyOf] at hk
    · rw [hkeyOf, Function.update_of_ne he] at hk
      rw [hbytes, hrec i he, harena]
      exact h.holds i k hk

end Invariant

end Kvl

import Kvl.Cache.Invariant

/-!
# What each cache call does to the representation

One inversion lemma per load path, and from it the three facts every call
satisfies: the invariant is restored, a failed read leaves its slot empty, and
no more resident keys disappear than reads were attempted.
-/

namespace Kvl

set_option autoImplicit false

open ExpertCache Tables

variable {B : Type*} {s : ExpertStore} {load : Nat → B → B}

theorem kvlExpertFind_of_keyFor {layer expert : Int} {k : Nat}
    (h : keyFor s layer expert = some k) : kvlExpertFind s layer expert = s.recordAt k := by
  unfold keyFor at h
  split at h
  · rename_i hr
    split at h
    · simp at h
    · obtain rfl := Option.some.inj h
      simp [kvlExpertFind, hr]
  · simp at h

theorem keyFor_lt {layer expert : Int} {k : Nat} (h : keyFor s layer expert = some k) :
    k < s.mapN := by
  unfold keyFor at h
  split at h
  · rename_i hr
    split at h
    · simp at h
    · obtain rfl := Option.some.inj h
      exact flatKey_lt hr
  · simp at h

theorem residentSlot_eq_some {c : ExpertCache B} {W : List PrefetchWork}
    (h : InFlight s load c W) {k i : Nat} :
    residentSlot c k = some i ↔ c.slotOf k = some i := by
  unfold residentSlot
  cases hs : c.slotOf k with
  | none => simp
  | some j =>
    have hk := h.slotOf_eq_some.mp hs
    have hj := h.bounded j (by simp [hk])
    simp [hk, hj]

theorem residentSlot_eq_none {c : ExpertCache B} {W : List PrefetchWork}
    (h : InFlight s load c W) {k : Nat} : residentSlot c k = none ↔ c.slotOf k = none := by
  cases hs : residentSlot c k with
  | some i => simp [(residentSlot_eq_some h).mp hs]
  | none =>
    cases hk : c.slotOf k with
    | none => simp
    | some i => simp [(residentSlot_eq_some h).mpr hk] at hs

section Lost

def residentKeys (s : ExpertStore) (c : ExpertCache B) : Finset Nat :=
  (Finset.range s.mapN).filter fun k => (c.slotOf k).isSome

/-- The keys a call makes non-resident. -/
def lostKeys (s : ExpertStore) (c c' : ExpertCache B) : Finset Nat :=
  residentKeys s c \ residentKeys s c'

theorem mem_lostKeys {c c' : ExpertCache B} {k : Nat} :
    k ∈ lostKeys s c c' ↔ k < s.mapN ∧ (c.slotOf k).isSome ∧ c'.slotOf k = none := by
  simp only [lostKeys, residentKeys, Finset.mem_sdiff, Finset.mem_filter, Finset.mem_range]
  cases c'.slotOf k with
  | none => simp
  | some i => simp; tauto

theorem lostKeys_card_trans (c d e : ExpertCache B) :
    (lostKeys s c e).card ≤ (lostKeys s c d).card + (lostKeys s d e).card := by
  have hsub : lostKeys s c e ⊆ lostKeys s c d ∪ lostKeys s d e := by
    intro k hk
    simp only [Finset.mem_union, mem_lostKeys] at hk ⊢
    cases hd : d.slotOf k with
    | none => exact .inl ⟨hk.1, hk.2.1, rfl⟩
    | some i => exact .inr ⟨hk.1, by simp, hk.2.2⟩
  exact (Finset.card_le_card hsub).trans (Finset.card_union_le _ _)

theorem lostKeys_card_of_kept {c c' : ExpertCache B}
    (h : ∀ k, (c.slotOf k).isSome → (c'.slotOf k).isSome) : (lostKeys s c c').card = 0 := by
  rw [Finset.card_eq_zero, Finset.eq_empty_iff_forall_notMem]
  intro k hk
  obtain ⟨_, hc, hc'⟩ := mem_lostKeys.mp hk
  simpa [hc'] using h k hc

theorem lostKeys_card_reserve (c : ExpertCache B) (slot : Nat) :
    (lostKeys s c (c.reserveSlot slot)).card ≤ 1 := by
  cases hk : c.keyOf slot with
  | key k =>
    have hsub : lostKeys s c (c.reserveSlot slot) ⊆ {k} := by
      intro x hx
      obtain ⟨_, hc, hc'⟩ := mem_lostKeys.mp hx
      rw [reserveSlot_slotOf, evict_slotOf_key hk, Function.update_apply] at hc'
      rw [Finset.mem_singleton]
      by_contra hne
      rw [if_neg hne] at hc'
      simp [hc'] at hc
    exact (Finset.card_le_card hsub).trans (by simp)
  | empty =>
    rw [lostKeys_card_of_kept]
    · omega
    · rw [reserveSlot_slotOf, evict_slotOf_of_ne (by simp [hk])]
      exact fun _ h => h
  | inflight =>
    rw [lostKeys_card_of_kept]
    · omega
    · rw [reserveSlot_slotOf, evict_slotOf_of_ne (by simp [hk])]
      exact fun _ h => h

end Lost

variable (s load) in
/-- What every call guarantees of its result. -/
structure CallSpec (c : ExpertCache B) (res : CallResult B) : Prop where
  inv : RepInv s load res.cache
  failed : ∀ rd ∈ res.reads, rd.ok = false → res.cache.keyOf rd.slot = .empty
  lost : (lostKeys s c res.cache).card ≤ res.reads.length
  nSlots : res.cache.nSlots = c.nSlots
  slotBytes : res.cache.slotBytes = c.slotBytes
  published : ∀ i r, res.cache.recordOfSlot i = some r →
    c.recordOfSlot i = some r ∨ r ∈ res.reads.map (·.record)

/-- A call that only moves counters, the clock or the pins. -/
theorem CallSpec.quiet {c c' : ExpertCache B} (h : RepInv s load c) (rc : Int)
    (out : Option CachedExpert) (harena : c'.arena = c.arena) (hslots : c'.nSlots = c.nSlots)
    (hbytes : c'.slotBytes = c.slotBytes) (hslotOf : c'.slotOf = c.slotOf)
    (hkeyOf : c'.keyOf = c.keyOf) (hrec : c'.recordOfSlot = c.recordOfSlot) :
    CallSpec s load c ⟨rc, out, [], c'⟩ where
  inv := h.congr harena hslots hbytes hslotOf hkeyOf hrec
  failed := by simp
  lost := by
    rw [lostKeys_card_of_kept]
    · simp
    · rw [hslotOf]
      exact fun _ h => h
  nSlots := hslots
  slotBytes := hbytes
  published i r hr := .inl (hrec ▸ hr)

section Get

@[simp] theorem pickVictim_counters (c : ExpertCache B) (avoid : List Nat) :
    (countMiss (countRequest c)).pickVictim avoid = c.pickVictim avoid :=
  pickVictim_congr avoid rfl rfl rfl rfl

/-- The branches of `kvl_expert_cache_get`. -/
inductive GetCase (s : ExpertStore) (load : Nat → B → B) (c : ExpertCache B)
    (layer expert : Int) (read : ReadResult B) : CallResult B → Prop where
  | rejected (hkey : keyFor s layer expert = none) :
    GetCase s load c layer expert read ⟨-1, none, [], c⟩
  | hit {key slot : Nat} (hkey : keyFor s layer expert = some key)
      (hres : residentSlot c key = some slot) :
    GetCase s load c layer expert read
      ⟨0, (c.recordOfSlot slot).map (publishOut s slot), [], touch (countRequest c) slot⟩
  | refused {key : Nat} (hkey : keyFor s layer expert = some key)
      (habs : residentSlot c key = none)
      (hwhy : ∀ r, s.recordAt key = some r →
        (s.record r).readBytes.toNat > c.slotBytes ∨ c.pickVictim [] = none) :
    GetCase s load c layer expert read ⟨-1, none, [], countMiss (countRequest c)⟩
  | missed {key slot r : Nat} (hkey : keyFor s layer expert = some key)
      (habs : residentSlot c key = none) (hrec : s.recordAt key = some r)
      (hfits : (s.record r).readBytes.toNat ≤ c.slotBytes)
      (hpick : c.pickVictim [] = some slot) :
    GetCase s load c layer expert read
      (settleGet s (loadIntoSlot s load ((countMiss (countRequest c)).reserveSlot slot) slot r read)
        slot key r read.ok)

variable (s load) in
theorem get_cases (c : ExpertCache B) (layer expert : Int) (read : ReadResult B) :
    GetCase s load c layer expert read (kvlExpertCacheGet s load c layer expert read) := by
  unfold kvlExpertCacheGet
  split
  · exact .rejected ‹_›
  · rename_i key hkey
    dsimp only
    split
    · exact .hit hkey ‹_›
    · rename_i habs
      rw [kvlExpertFind_of_keyFor hkey, pickVictim_counters]
      split
      · rename_i hnone
        exact .refused hkey habs fun r hr => by simp [hnone] at hr
      · rename_i r hrec
        split
        · rename_i hbig
          refine .refused hkey habs fun r' hr' => .inl ?_
          obtain rfl : r = r' := by simpa [hrec] using hr'
          exact hbig
        · rename_i hfits
          split
          · rename_i hpick
            exact .refused hkey habs fun _ _ => .inr hpick
          · rename_i slot hpick
            exact .missed hkey habs hrec (Nat.le_of_not_gt hfits) hpick

variable (s load) in
/-- The single load of `get` and `load_into_slot` leaves the tables alone. -/
theorem loadIntoSlot_tables (c : ExpertCache B) (slot r : Nat) (read : ReadResult B) :
    (loadIntoSlot s load c slot r read).slotOf = c.slotOf ∧
    (loadIntoSlot s load c slot r read).keyOf = c.keyOf ∧
    (loadIntoSlot s load c slot r read).recordOfSlot = c.recordOfSlot ∧
    (loadIntoSlot s load c slot r read).nSlots = c.nSlots ∧
    (loadIntoSlot s load c slot r read).slotBytes = c.slotBytes ∧
    (loadIntoSlot s load c slot r read).pinnedOf = c.pinnedOf := by
  unfold loadIntoSlot fillSlot
  cases read <;> simp [ReadResult.ok]

variable (s load) in
theorem loadIntoSlot_arena (c : ExpertCache B) (slot r : Nat) (read : ReadResult B) :
    (loadIntoSlot s load c slot r read).arena =
      Function.update c.arena slot (fill load r (c.arena slot) read) := by
  unfold loadIntoSlot fillSlot
  cases read <;> simp [ReadResult.ok]

theorem delivered_fill {r : Nat} {old : B} {read : ReadResult B} (h : read.ok = true) :
    Delivered load r (fill load r old read) := by
  cases read with
  | delivered => exact ⟨old, rfl⟩
  | failed junk => simp [ReadResult.ok] at h

theorem InFlight.loadIntoSlot {c : ExpertCache B} {w : PrefetchWork} {W : List PrefetchWork}
    (h : InFlight s load c (w :: W)) (read : ReadResult B) :
    InFlight s load (Kvl.loadIntoSlot s load c w.slot w.r read) (w :: W) := by
  obtain ⟨hslotOf, hkeyOf, hrec, hslots, hbytes, _⟩ :=
    loadIntoSlot_tables s load c w.slot w.r read
  have harena := loadIntoSlot_arena s load c w.slot w.r read
  have hfill : ∀ i k, c.keyOf i = .key k →
      (Kvl.loadIntoSlot s load c w.slot w.r read).arena i = c.arena i := by
    intro i k hk
    have hne : i ≠ w.slot := by
      rintro rfl
      rw [h.head_slot] at hk
      simp at hk
    rw [harena, Function.update_of_ne hne]
  exact (h.refill hfill).congr rfl hslots hbytes hslotOf hkeyOf hrec

/-- A single load on an open reservation, settled either way. -/
theorem InFlight.settleGet {c : ExpertCache B} {slot key r : Nat} {read : ReadResult B}
    (h : InFlight s load c [⟨slot, key, r, read.ok⟩]) :
    RepInv s load
      (Kvl.settleGet s (Kvl.loadIntoSlot s load c slot r read) slot key r read.ok).cache := by
  have hl := h.loadIntoSlot read
  unfold Kvl.settleGet
  split
  · rename_i hok
    have hd : Delivered load r ((Kvl.loadIntoSlot s load c slot r read).arena slot) := by
      rw [loadIntoSlot_arena, Function.update_self]
      exact delivered_fill hok
    exact hl.publish hd rfl rfl rfl rfl rfl rfl
  · exact hl.release rfl rfl rfl rfl rfl fun _ _ => rfl

theorem RepInv.counted {c : ExpertCache B} (h : RepInv s load c) :
    RepInv s load (countMiss (countRequest c)) := h.congr rfl rfl rfl rfl rfl rfl

theorem RepInv.reserved {c : ExpertCache B} (h : RepInv s load c) {slot key r : Nat}
    {layer expert : Int} (hkey : keyFor s layer expert = some key)
    (habs : residentSlot c key = none) (hrec : s.recordAt key = some r)
    (hfits : (s.record r).readBytes.toNat ≤ c.slotBytes) (hpick : c.pickVictim [] = some slot)
    (got : Bool) :
    InFlight s load ((countMiss (countRequest c)).reserveSlot slot) [⟨slot, key, r, got⟩] :=
  h.counted.reserve (by rw [pickVictim_counters]; exact hpick)
    ((residentSlot_eq_none h).mp habs) (by simp) ⟨⟨layer, expert, hkey⟩, hrec, hfits⟩ got

theorem settleGet_frame {c : ExpertCache B} {slot key r : Nat} {ok : Bool} :
    (settleGet s c slot key r ok).cache.nSlots = c.nSlots ∧
      (settleGet s c slot key r ok).cache.slotBytes = c.slotBytes ∧
      (settleGet s c slot key r ok).cache.pinnedOf = c.pinnedOf ∧
      ∀ i x, (settleGet s c slot key r ok).cache.recordOfSlot i = some x →
        c.recordOfSlot i = some x ∨
          x ∈ (settleGet s c slot key r ok).reads.map (·.record) := by
  cases ok with
  | false => exact ⟨rfl, rfl, rfl, fun _ _ h => .inl h⟩
  | true =>
    refine ⟨rfl, rfl, rfl, ?_⟩
    intro i x hx
    by_cases he : i = slot
    · subst i
      obtain rfl : r = x := by simpa [settleGet] using hx
      exact .inr List.mem_cons_self
    · exact .inl (by simpa [settleGet, Function.update_of_ne he] using hx)

theorem get_spec {c : ExpertCache B} (h : RepInv s load c) (layer expert : Int)
    (read : ReadResult B) :
    CallSpec s load c (kvlExpertCacheGet s load c layer expert read) := by
  have hcase := get_cases s load c layer expert read
  generalize kvlExpertCacheGet s load c layer expert read = res at hcase ⊢
  cases hcase with
  | rejected hkey => exact .quiet h _ _ rfl rfl rfl rfl rfl rfl
  | hit hkey hres => exact .quiet h _ _ rfl rfl rfl rfl rfl rfl
  | refused hkey habs hwhy => exact .quiet h _ _ rfl rfl rfl rfl rfl rfl
  | @missed key slot r hkey habs hrec hfits hpick =>
    have hres := h.reserved hkey habs hrec hfits hpick read.ok
    obtain ⟨_, _, htabrec, htabslots, htabbytes, _⟩ := loadIntoSlot_tables s load
      ((countMiss (countRequest c)).reserveSlot slot) slot r read
    refine ⟨hres.settleGet, ?_, ?_, ?_, ?_, ?_⟩
    · intro rd hrd hfail
      unfold settleGet at hrd ⊢
      split at hrd
      · obtain rfl := List.mem_singleton.mp hrd
        simp at hfail
      · rename_i hok
        obtain rfl := List.mem_singleton.mp hrd
        rw [if_neg hok]
        simp
    · have hreserve := lostKeys_card_reserve (s := s) (countMiss (countRequest c)) slot
      have htrans := lostKeys_card_trans (s := s) c ((countMiss (countRequest c)).reserveSlot slot)
        (settleGet s (loadIntoSlot s load ((countMiss (countRequest c)).reserveSlot slot) slot r read)
          slot key r read.ok).cache
      have hsettle : (lostKeys s ((countMiss (countRequest c)).reserveSlot slot)
          (settleGet s (loadIntoSlot s load ((countMiss (countRequest c)).reserveSlot slot) slot r
            read) slot key r read.ok).cache).card = 0 := by
        apply lostKeys_card_of_kept
        intro k hk
        have htab := (loadIntoSlot_tables s load
          ((countMiss (countRequest c)).reserveSlot slot) slot r read).1
        unfold settleGet
        split
        · simp only [htab, Function.update_apply]
          split
          · rfl
          · exact hk
        · rw [htab]
          exact hk
      have hlen : (settleGet s (loadIntoSlot s load ((countMiss (countRequest c)).reserveSlot slot)
          slot r read) slot key r read.ok).reads.length = 1 := by
        unfold settleGet
        split <;> rfl
      change (lostKeys s c ((countMiss (countRequest c)).reserveSlot slot)).card ≤ 1 at hreserve
      omega
    · exact settleGet_frame.1.trans (htabslots.trans (reserveSlot_nSlots _ _))
    · exact settleGet_frame.2.1.trans (htabbytes.trans (reserveSlot_slotBytes _ _))
    · intro i x hx
      rcases settleGet_frame.2.2.2 i x hx with hx | hx
      · rw [htabrec, reserveSlot_recordOfSlot, Function.update_apply] at hx
        split at hx
        · simp at hx
        · exact .inl hx
      · exact .inr hx

variable (s load) in
/-- The view of key `key` in slot `slot` of a cache: its record and its bytes. -/
structure Serves (c : ExpertCache B) (key slot r : Nat) : Prop where
  loadable : Loadable s c.slotBytes key r
  slot_lt : slot < c.nSlots
  slotOf : c.slotOf key = some slot
  record : c.recordOfSlot slot = some r
  bytes : Delivered load r (c.arena slot)

theorem RepInv.serves {c : ExpertCache B} (h : RepInv s load c) {key slot : Nat}
    (hslot : c.slotOf key = some slot) : ∃ r, Serves s load c key slot r := by
  have hk := h.slotOf_eq_some.mp hslot
  obtain ⟨r, hload, hrec, hd⟩ := h.holds slot key hk
  exact ⟨r, hload, h.bounded slot (by simp [hk]), hslot, hrec, hd⟩

/-- A `get` that returns 0 hands out the requested record and its bytes. -/
theorem get_ok {c : ExpertCache B} (h : RepInv s load c) {layer expert : Int} {read : ReadResult B}
    (hrc : (kvlExpertCacheGet s load c layer expert read).rc = 0) :
    ∃ key slot r, keyFor s layer expert = some key ∧
      (kvlExpertCacheGet s load c layer expert read).out = some (publishOut s slot r) ∧
      Serves s load (kvlExpertCacheGet s load c layer expert read).cache key slot r := by
  have hspec := get_spec h layer expert read
  have hcase := get_cases s load c layer expert read
  generalize kvlExpertCacheGet s load c layer expert read = res at hrc hspec hcase ⊢
  cases hcase with
  | rejected hkey => simp at hrc
  | refused hkey habs hwhy => simp at hrc
  | @hit key slot hkey hres =>
    have hslot := (residentSlot_eq_some h).mp hres
    obtain ⟨r, hs⟩ := hspec.inv.serves hslot
    refine ⟨key, slot, r, hkey, ?_, hs⟩
    have hrec : c.recordOfSlot slot = some r := hs.record
    simp [hrec]
  | @missed key slot r hkey habs hrec hfits hpick =>
    have hok : read.ok = true := by
      by_contra hno
      simp [settleGet, hno] at hrc
    have hslot : (settleGet s (loadIntoSlot s load ((countMiss (countRequest c)).reserveSlot slot)
        slot r read) slot key r read.ok).cache.slotOf key = some slot := by simp [settleGet, hok]
    obtain ⟨r', hs⟩ := hspec.inv.serves hslot
    have hr : s.recordAt key = some r' := hs.loadable.record
    obtain rfl : r = r' := by simpa [hrec] using hr
    exact ⟨key, slot, r, hkey, by simp [settleGet, hok], hs⟩

end Get

section Getmany

/-- The branches of one round of the reservation loop. -/
inductive ReserveCase (s : ExpertStore) (layer : Int) (avoid : List Nat) (e : Int)
    (c : ExpertCache B) (w : List PrefetchWork) :
    Option (ExpertCache B × List PrefetchWork) → Prop where
  | skip (hwhy : ∀ key, keyFor s layer e = some key → (c.slotOf key).isSome ∨
        key ∈ w.map (·.key) ∨
        ∀ r, s.recordAt key = some r → (s.record r).readBytes.toNat > c.slotBytes) :
    ReserveCase s layer avoid e c w (some (c, w))
  | noVictim {key r : Nat} (hkey : keyFor s layer e = some key) (habs : c.slotOf key = none)
      (hnew : key ∉ w.map (·.key)) (hload : Loadable s c.slotBytes key r)
      (hpick : c.pickVictim avoid = none) : ReserveCase s layer avoid e c w none
  | reserved {key slot r : Nat} (hkey : keyFor s layer e = some key) (habs : c.slotOf key = none)
      (hnew : key ∉ w.map (·.key)) (hload : Loadable s c.slotBytes key r)
      (hpick : c.pickVictim avoid = some slot) :
    ReserveCase s layer avoid e c w
      (some (c.reserveSlot slot, w ++ [⟨slot, key, r, false⟩]))

theorem reserve_cases (layer : Int) (avoid : List Nat) (e : Int) (c : ExpertCache B)
    (w : List PrefetchWork) :
    ReserveCase s layer avoid e c w (reserveStep s layer avoid e c w) := by
  unfold reserveStep
  split
  · rename_i hnone
    exact .skip fun key hkey => by simp [hnone] at hkey
  · rename_i key hkey
    have same : ∀ key', keyFor s layer e = some key' → key' = key := by
      intro key' hkey'
      exact Option.some.inj (hkey'.symm.trans hkey)
    split
    · rename_i hres
      exact .skip fun key' hkey' => .inl (same key' hkey' ▸ hres)
    · rename_i hres
      have habs : c.slotOf key = none := by simpa using hres
      split
      · rename_i hdup
        refine .skip fun key' hkey' => .inr (.inl ?_)
        rw [same key' hkey']
        simpa [List.any_eq_true] using hdup
      · rename_i hdup
        have hnew : key ∉ w.map (·.key) := by simpa [List.any_eq_true] using hdup
        rw [kvlExpertFind_of_keyFor hkey]
        split
        · rename_i hnone
          refine .skip fun key' hkey' => .inr (.inr fun r hr => ?_)
          rw [same key' hkey', hnone] at hr
          simp at hr
        · rename_i r hrec
          split
          · rename_i hbig
            refine .skip fun key' hkey' => .inr (.inr fun r' hr' => ?_)
            rw [same key' hkey', hrec] at hr'
            obtain rfl := Option.some.inj hr'
            exact hbig
          · rename_i hfits
            have hload : Loadable s c.slotBytes key r :=
              ⟨⟨layer, e, hkey⟩, hrec, Nat.le_of_not_gt hfits⟩
            split
            · exact .noVictim hkey habs hnew hload ‹_›
            · exact .reserved hkey habs hnew hload ‹_›

theorem reserveBatch_spec (layer : Int) (avoid : List Nat) (ids : List Int) {c : ExpertCache B}
    {w : List PrefetchWork} (h : InFlight s load c w) :
    InFlight s load (reserveBatch s layer avoid ids c w).1 (reserveBatch s layer avoid ids c w).2 ∧
      (lostKeys s c (reserveBatch s layer avoid ids c w).1).card + w.length ≤
        (reserveBatch s layer avoid ids c w).2.length := by
  have stay : ∀ c : ExpertCache B, (lostKeys s c c).card = 0 := fun c =>
    lostKeys_card_of_kept fun _ h => h
  induction ids generalizing c w with
  | nil => exact ⟨h, by simp [reserveBatch, stay]⟩
  | cons e es ih =>
    unfold reserveBatch
    have hcase := reserve_cases (s := s) layer avoid e c w
    generalize reserveStep s layer avoid e c w = res at hcase ⊢
    cases hcase with
    | skip hwhy => exact ih h
    | noVictim hkey habs hnew hload hpick => exact ⟨h, by simp [stay]⟩
    | @reserved key slot r hkey habs hnew hload hpick =>
      obtain ⟨hin, hlost⟩ := ih (h.reserve hpick habs hnew hload false)
      refine ⟨hin, ?_⟩
      dsimp only
      have htrans := lostKeys_card_trans (s := s) c (c.reserveSlot slot)
        (reserveBatch s layer avoid es (c.reserveSlot slot) (w ++ [⟨slot, key, r, false⟩])).1
      have hone := lostKeys_card_reserve (s := s) c slot
      simp only [List.length_append, List.length_singleton] at hlost
      omega

/-- Phase 1 forgets records and adds none. -/
theorem reserveBatch_frame (layer : Int) (avoid : List Nat) (ids : List Int) (c : ExpertCache B)
    (w : List PrefetchWork) :
    (reserveBatch s layer avoid ids c w).1.nSlots = c.nSlots ∧
      (reserveBatch s layer avoid ids c w).1.slotBytes = c.slotBytes ∧
      (reserveBatch s layer avoid ids c w).1.pinnedOf = c.pinnedOf ∧
      ∀ i r, (reserveBatch s layer avoid ids c w).1.recordOfSlot i = some r →
        c.recordOfSlot i = some r := by
  induction ids generalizing c w with
  | nil => exact ⟨rfl, rfl, rfl, fun _ _ h => h⟩
  | cons e es ih =>
    unfold reserveBatch
    have hcase := reserve_cases (s := s) layer avoid e c w
    generalize reserveStep s layer avoid e c w = res at hcase ⊢
    cases hcase with
    | skip hwhy => exact ih c w
    | noVictim hkey habs hnew hload hpick => exact ⟨rfl, rfl, rfl, fun _ _ h => h⟩
    | @reserved key slot r hkey habs hnew hload hpick =>
      obtain ⟨hslots, hbytes, hpins, hrec⟩ :=
        ih (c.reserveSlot slot) (w ++ [⟨slot, key, r, false⟩])
      refine ⟨by simpa using hslots, by simpa using hbytes, by simpa using hpins, ?_⟩
      intro i x hx
      have hkept := hrec i x hx
      rw [reserveSlot_recordOfSlot, Function.update_apply] at hkept
      split at hkept
      · simp at hkept
      · exact hkept

/-- What one reservation is for, without its outcome. -/
def PrefetchWork.target (w : PrefetchWork) : Nat × Nat × Nat := (w.slot, w.key, w.r)

theorem InFlight.retarget {c : ExpertCache B} {W W' : List PrefetchWork}
    (h : InFlight s load c W) (ht : W'.map (·.target) = W.map (·.target)) :
    InFlight s load c W' := by
  have hslots : W'.map (·.slot) = W.map (·.slot) := by
    simpa [PrefetchWork.target, Function.comp_def] using congrArg (List.map Prod.fst) ht
  have hkeys : W'.map (·.key) = W.map (·.key) := by
    simpa [PrefetchWork.target, Function.comp_def] using congrArg (List.map fun t => t.2.1) ht
  have hmem : ∀ w ∈ W', ∃ v ∈ W, v.target = w.target := by
    intro w hw
    have : w.target ∈ W.map (·.target) := ht ▸ List.mem_map_of_mem hw
    exact List.mem_map.mp this
  refine ⟨h.inverse, h.bounded, hslots ▸ h.flight, hslots ▸ h.slots, hkeys ▸ h.keys, ?_, ?_,
    h.holds⟩
  · intro w hw
    obtain ⟨v, hv, he⟩ := hmem w hw
    simp only [PrefetchWork.target, Prod.mk.injEq] at he
    rw [← he.2.1]
    exact h.absent v hv
  · intro w hw
    obtain ⟨v, hv, he⟩ := hmem w hw
    simp only [PrefetchWork.target, Prod.mk.injEq] at he
    rw [← he.2.1, ← he.2.2]
    exact h.loadable v hv

variable (load) in
theorem loadBatch_target (read : Nat → ReadResult B) (i : Nat) (W : List PrefetchWork)
    (c : ExpertCache B) :
    (loadBatch load read i W c).2.map (·.target) = W.map (·.target) := by
  induction W generalizing i c with
  | nil => rfl
  | cons w W ih =>
    simp only [loadBatch, List.map_cons, ih]
    rfl

variable (load) in
/-- Phase 2 changes nothing but the memory of the slots in flight. -/
theorem loadBatch_frame (read : Nat → ReadResult B) (i : Nat) (W : List PrefetchWork)
    (c : ExpertCache B) :
    ∃ arena, (loadBatch load read i W c).1 = { c with arena := arena } ∧
      ∀ j, j ∉ W.map (·.slot) → arena j = c.arena j := by
  induction W generalizing i c with
  | nil => exact ⟨c.arena, rfl, fun _ _ => rfl⟩
  | cons w W ih =>
    obtain ⟨arena, heq, hkeep⟩ := ih (i + 1) (fillSlot load c w.slot w.r (read i))
    refine ⟨arena, heq, ?_⟩
    intro j hj
    simp only [List.map_cons, List.mem_cons, not_or] at hj
    rw [hkeep j hj.2]
    exact Function.update_of_ne hj.1 _ _

variable (load) in
theorem loadBatch_delivered (read : Nat → ReadResult B) (i : Nat) (W : List PrefetchWork)
    (c : ExpertCache B) (hnd : (W.map (·.slot)).Nodup) :
    ∀ w ∈ (loadBatch load read i W c).2, w.got = true →
      Delivered load w.r ((loadBatch load read i W c).1.arena w.slot) := by
  induction W generalizing i c with
  | nil => simp [loadBatch]
  | cons w W ih =>
    intro v hv hgot
    simp only [loadBatch] at hv ⊢
    rw [List.map_cons, List.nodup_cons] at hnd
    rcases List.mem_cons.mp hv with rfl | hv
    · obtain ⟨arena, heq, hkeep⟩ := loadBatch_frame load read (i + 1) W
        (fillSlot load c w.slot w.r (read i))
      rw [heq]
      change Delivered load w.r (arena w.slot)
      rw [hkeep w.slot hnd.1]
      simp only [fillSlot, Function.update_self]
      exact delivered_fill hgot
    · exact ih (i + 1) _ hnd.2 v hv hgot

theorem InFlight.loadBatch {c : ExpertCache B} {W : List PrefetchWork} (h : InFlight s load c W)
    (read : Nat → ReadResult B) (i : Nat) :
    InFlight s load (Kvl.loadBatch load read i W c).1 (Kvl.loadBatch load read i W c).2 := by
  apply InFlight.retarget ?_ (loadBatch_target load read i W c)
  obtain ⟨arena, heq, hkeep⟩ := loadBatch_frame load read i W c
  rw [heq]
  apply h.refill
  intro j k hk
  apply hkeep
  intro hm
  rw [(h.flight j).mpr hm] at hk
  simp at hk

theorem publishWork_arena (c : ExpertCache B) (w : PrefetchWork) :
    (publishWork s c w).arena = c.arena := by
  unfold publishWork
  split <;> rfl

theorem InFlight.publishWork {c : ExpertCache B} {w : PrefetchWork} {W : List PrefetchWork}
    (h : InFlight s load c (w :: W))
    (hd : w.got = true → Delivered load w.r (c.arena w.slot)) :
    InFlight s load (Kvl.publishWork s c w) W := by
  unfold Kvl.publishWork
  split
  · exact h.publish (hd ‹_›) rfl rfl rfl rfl rfl rfl
  · refine h.release rfl rfl rfl rfl rfl ?_
    intro i hi
    exact Function.update_of_ne hi _ _

/-- Phase 3 closes all reservations and loses no key. -/
theorem publishBatch_spec {W : List PrefetchWork} {c : ExpertCache B} (h : InFlight s load c W)
    (hd : ∀ w ∈ W, w.got = true → Delivered load w.r (c.arena w.slot)) :
    RepInv s load (W.foldl (publishWork s) c) ∧
      (∀ k, (c.slotOf k).isSome → ((W.foldl (publishWork s) c).slotOf k).isSome) := by
  induction W generalizing c with
  | nil => exact ⟨h, fun _ hk => hk⟩
  | cons w W ih =>
    have hstep := h.publishWork (hd w List.mem_cons_self)
    have hd' : ∀ v ∈ W, v.got = true → Delivered load v.r ((publishWork s c w).arena v.slot) := by
      intro v hv
      rw [publishWork_arena]
      exact hd v (List.mem_cons_of_mem w hv)
    obtain ⟨hinv, hkept⟩ := ih hstep hd'
    refine ⟨hinv, fun k hk => hkept k ?_⟩
    unfold publishWork
    split
    · simp only [Function.update_apply]
      split
      · rfl
      · exact hk
    · exact hk

/-- A slot that phase 3 does not name keeps its key. -/
theorem publishBatch_keyOf (W : List PrefetchWork) (c : ExpertCache B) {i : Nat}
    (hi : i ∉ W.map (·.slot)) : (W.foldl (publishWork s) c).keyOf i = c.keyOf i := by
  induction W generalizing c with
  | nil => rfl
  | cons w W ih =>
    simp only [List.map_cons, List.mem_cons, not_or] at hi
    rw [List.foldl_cons, ih _ hi.2]
    unfold publishWork
    split <;> exact Function.update_of_ne hi.1 _ _

theorem publishBatch_failed (W : List PrefetchWork) (c : ExpertCache B)
    (hnd : (W.map (·.slot)).Nodup) :
    ∀ w ∈ W, w.got = false → (W.foldl (publishWork s) c).keyOf w.slot = .empty := by
  induction W generalizing c with
  | nil => simp
  | cons v W ih =>
    intro w hw hgot
    rw [List.map_cons, List.nodup_cons] at hnd
    rcases List.mem_cons.mp hw with rfl | hw
    · rw [List.foldl_cons, publishBatch_keyOf W _ hnd.1]
      simp [publishWork, hgot]
    · exact ih _ hnd.2 w hw hgot

/-- Phase 3 publishes the records of its reservations and no other. -/
theorem publishBatch_frame (W : List PrefetchWork) (c : ExpertCache B) :
    (W.foldl (publishWork s) c).nSlots = c.nSlots ∧
      (W.foldl (publishWork s) c).slotBytes = c.slotBytes ∧
      (W.foldl (publishWork s) c).pinnedOf = c.pinnedOf ∧
      ∀ i r, (W.foldl (publishWork s) c).recordOfSlot i = some r →
        c.recordOfSlot i = some r ∨ r ∈ W.map (·.r) := by
  induction W generalizing c with
  | nil => exact ⟨rfl, rfl, rfl, fun _ _ h => .inl h⟩
  | cons w W ih =>
    obtain ⟨hslots, hbytes, hpins, hrec⟩ := ih (publishWork s c w)
    have hone : (publishWork s c w).nSlots = c.nSlots ∧
        (publishWork s c w).slotBytes = c.slotBytes ∧
        (publishWork s c w).pinnedOf = c.pinnedOf := by
      unfold publishWork
      split <;> exact ⟨rfl, rfl, rfl⟩
    refine ⟨hslots.trans hone.1, hbytes.trans hone.2.1, hpins.trans hone.2.2, ?_⟩
    intro i r hr
    rcases hrec i r hr with hr | hr
    · have hstep : (publishWork s c w).recordOfSlot i = some r →
          c.recordOfSlot i = some r ∨ w.r = r := by
        unfold publishWork
        dsimp only
        split <;> simp only [Function.update_apply] <;> split <;> simp_all
      rcases hstep hr with h | rfl
      · exact .inl h
      · exact .inr List.mem_cons_self
    · exact .inr (List.mem_cons_of_mem _ hr)

/-- The branches of `kvl_expert_cache_getmany`: nothing reserved, or a batch of reads. -/
inductive GetmanyCase (s : ExpertStore) (load : Nat → B → B) (c : ExpertCache B) (layer : Int)
    (env : BatchEnv s B) : CallResult B → Prop where
  | idle (rc : Int) : GetmanyCase s load c layer env ⟨rc, none, [], c⟩
  | none (rc : Int) : GetmanyCase s load c layer env ⟨rc, none, [], countBatch c⟩
  | batch (ids : List Int) (d : ExpertCache B) (W : List PrefetchWork)
      (hreserve : reserveBatch s layer (batchAvoid s (countBatch c) layer ids) ids (countBatch c) [] =
        (d, W)) :
    GetmanyCase s load c layer env
      ⟨((loadBatch load env.read 0 (env.qsort.sort W) d).2.countP (·.got) : Nat), none,
        (loadBatch load env.read 0 (env.qsort.sort W) d).2.map (·.toRead),
        (loadBatch load env.read 0 (env.qsort.sort W) d).2.foldl (publishWork s)
          (loadBatch load env.read 0 (env.qsort.sort W) d).1⟩

theorem Qsort.sort_nil {α : Type*} {key : α → Nat} (q : Qsort key) : q.sort [] = [] :=
  List.Perm.eq_nil (q.perm [])

/-- One of the orders `qsort` may produce. -/
def insertionQsort {α : Type*} (key : α → Nat) : Qsort key where
  sort l := l.insertionSort fun a b => key a ≤ key b
  perm l := List.perm_insertionSort _ l
  sorted l := List.pairwise_insertionSort _ l

variable (s load) in
theorem getmany_cases (c : ExpertCache B) (layer : Int) (experts : Option (List Int)) (n : Int)
    (env : BatchEnv s B) :
    GetmanyCase s load c layer env (kvlExpertCacheGetmany s load c layer experts n env) := by
  unfold kvlExpertCacheGetmany
  split
  · exact .idle _
  · rename_i ids
    split
    · exact .idle _
    split
    · exact .idle _
    dsimp only
    split
    · exact .none _
    split
    · exact .none _
    split
    · rename_i hempty
      have hcase : GetmanyCase s load c layer env _ :=
        .batch (ids.take n.toNat) _ [] (Prod.ext rfl (List.isEmpty_iff.mp hempty))
      simpa only [Qsort.sort_nil, loadBatch, List.countP_nil, List.map_nil, List.foldl_nil,
        Nat.cast_zero] using hcase
    · exact .batch _ _ _ rfl

theorem getmany_spec {c : ExpertCache B} (h : RepInv s load c) (layer : Int)
    (experts : Option (List Int)) (n : Int) (env : BatchEnv s B) :
    CallSpec s load c (kvlExpertCacheGetmany s load c layer experts n env) := by
  have hcase := getmany_cases s load c layer experts n env
  generalize kvlExpertCacheGetmany s load c layer experts n env = res at hcase ⊢
  cases hcase with
  | idle rc => exact .quiet h _ _ rfl rfl rfl rfl rfl rfl
  | none rc => exact .quiet h _ _ rfl rfl rfl rfl rfl rfl
  | batch ids d W hreserve =>
    have hcount : InFlight s load (countBatch c) [] := h.congr rfl rfl rfl rfl rfl rfl
    obtain ⟨hin, hlost⟩ := reserveBatch_spec layer (batchAvoid s (countBatch c) layer ids) ids hcount
    rw [hreserve] at hin hlost
    have hsorted := hin.perm (env.qsort.perm W).symm
    have hloaded := hsorted.loadBatch env.read 0
    have hdel := loadBatch_delivered load env.read 0 _ d hsorted.slots
    obtain ⟨hinv, hkept⟩ := publishBatch_spec hloaded hdel
    obtain ⟨hrslots, hrbytes, _, hrrec⟩ := reserveBatch_frame (s := s) layer
      (batchAvoid s (countBatch c) layer ids) ids (countBatch c) []
    obtain ⟨hpslots, hpbytes, _, hprec⟩ := publishBatch_frame (s := s)
      (loadBatch load env.read 0 (env.qsort.sort W) d).2
      (loadBatch load env.read 0 (env.qsort.sort W) d).1
    rw [hreserve] at hrslots hrbytes hrrec
    refine ⟨hinv, ?_, ?_, ?_, ?_, ?_⟩
    · intro rd hrd hfail
      obtain ⟨w, hw, rfl⟩ := List.mem_map.mp hrd
      exact publishBatch_failed _ _ hloaded.slots w hw hfail
    · obtain ⟨arena, heq, _⟩ := loadBatch_frame load env.read 0 (env.qsort.sort W) d
      have hslotOf : (loadBatch load env.read 0 (env.qsort.sort W) d).1.slotOf = d.slotOf := by
        rw [heq]
      have hlen : (loadBatch load env.read 0 (env.qsort.sort W) d).2.length = W.length := by
        have := congrArg List.length (loadBatch_target load env.read 0 (env.qsort.sort W) d)
        simpa [(env.qsort.perm W).length_eq] using this
      have hrest : (lostKeys s d ((loadBatch load env.read 0 (env.qsort.sort W) d).2.foldl
          (publishWork s) (loadBatch load env.read 0 (env.qsort.sort W) d).1)).card = 0 :=
        lostKeys_card_of_kept fun k hk => hkept k (by rwa [hslotOf])
      have htrans := lostKeys_card_trans (s := s) c d
        ((loadBatch load env.read 0 (env.qsort.sort W) d).2.foldl (publishWork s)
          (loadBatch load env.read 0 (env.qsort.sort W) d).1)
      change (lostKeys s c d).card + _ ≤ _ at hlost
      simp only [List.length_nil, Nat.add_zero] at hlost
      simp only [List.length_map, hlen]
      omega
    · obtain ⟨arena, heq, _⟩ := loadBatch_frame load env.read 0 (env.qsort.sort W) d
      rw [hpslots, heq]
      exact hrslots
    · obtain ⟨arena, heq, _⟩ := loadBatch_frame load env.read 0 (env.qsort.sort W) d
      rw [hpbytes, heq]
      exact hrbytes
    · intro i r hr
      rcases hprec i r hr with hr | hr
      · obtain ⟨arena, heq, _⟩ := loadBatch_frame load env.read 0 (env.qsort.sort W) d
        rw [heq] at hr
        exact .inl (hrrec i r hr)
      · right
        simpa [PrefetchWork.toRead, Function.comp_def] using hr

end Getmany

theorem pinLayer_spec {c : ExpertCache B} (h : RepInv s load c) (layer : Int)
    (experts : Option (List Int)) (n : Int) (allocOk : Bool) :
    CallSpec s load c (kvlExpertCachePinLayer s c layer experts n allocOk) := by
  unfold kvlExpertCachePinLayer
  split
  · exact .quiet h _ _ rfl rfl rfl rfl rfl rfl
  dsimp only
  split
  · exact .quiet h _ _ rfl rfl rfl rfl rfl rfl
  split
  · exact .quiet h _ _ rfl rfl rfl rfl rfl rfl
  · exact .quiet h _ _ rfl rfl rfl rfl rfl rfl

theorem resident_spec {c : ExpertCache B} (h : RepInv s load c) (layer expert : Int) :
    CallSpec s load c (kvlExpertCacheResident s c layer expert) := by
  unfold kvlExpertCacheResident
  split
  · exact .quiet h _ _ rfl rfl rfl rfl rfl rfl
  split
  · exact .quiet h _ _ rfl rfl rfl rfl rfl rfl
  · exact .quiet h _ _ rfl rfl rfl rfl rfl rfl

theorem get_pinnedOf (c : ExpertCache B) (layer expert : Int) (read : ReadResult B) :
    (kvlExpertCacheGet s load c layer expert read).cache.pinnedOf = c.pinnedOf := by
  have hcase := get_cases s load c layer expert read
  generalize kvlExpertCacheGet s load c layer expert read = res at hcase ⊢
  cases hcase with
  | rejected hkey => rfl
  | hit hkey hres => rfl
  | refused hkey habs hwhy => rfl
  | @missed key slot r hkey habs hrec hfits hpick =>
    obtain ⟨_, _, _, _, _, hpins⟩ := loadIntoSlot_tables s load
      ((countMiss (countRequest c)).reserveSlot slot) slot r read
    exact settleGet_frame.2.2.1.trans (hpins.trans (reserveSlot_pinnedOf _ _))

theorem getmany_pinnedOf (c : ExpertCache B) (layer : Int) (experts : Option (List Int)) (n : Int)
    (env : BatchEnv s B) :
    (kvlExpertCacheGetmany s load c layer experts n env).cache.pinnedOf = c.pinnedOf := by
  have hcase := getmany_cases s load c layer experts n env
  generalize kvlExpertCacheGetmany s load c layer experts n env = res at hcase ⊢
  cases hcase with
  | idle rc => rfl
  | none rc => rfl
  | batch ids d W hreserve =>
    obtain ⟨_, _, hreserved, _⟩ := reserveBatch_frame (s := s) layer
      (batchAvoid s (countBatch c) layer ids) ids (countBatch c) []
    obtain ⟨arena, heq, _⟩ := loadBatch_frame load env.read 0 (env.qsort.sort W) d
    rw [hreserve] at hreserved
    rw [(publishBatch_frame _ _).2.2.1, heq]
    exact hreserved

theorem step_spec {c : ExpertCache B} (h : RepInv s load c) (op : CacheOp s B) :
    CallSpec s load c (step s load c op) := by
  cases op with
  | get layer expert read => exact get_spec h layer expert read
  | getmany layer experts n env => exact getmany_spec h layer experts n env
  | pinLayer layer experts n allocOk => exact pinLayer_spec h layer experts n allocOk
  | resident layer expert => exact resident_spec h layer expert
  | resetStats => exact .quiet h _ _ rfl rfl rfl rfl rfl rfl

theorem run_inv {c : ExpertCache B} (h : RepInv s load c) (ops : List (CacheOp s B)) :
    RepInv s load (run s load c ops) := by
  induction ops generalizing c with
  | nil => exact h
  | cons op ops ih => exact ih (step_spec h op).inv

/-- A history keeps the shape of the cache and publishes only what it read. -/
theorem run_frame {c : ExpertCache B} (h : RepInv s load c) (ops : List (CacheOp s B)) :
    (run s load c ops).nSlots = c.nSlots ∧ (run s load c ops).slotBytes = c.slotBytes ∧
      ∀ i r, (run s load c ops).recordOfSlot i = some r →
        c.recordOfSlot i = some r ∨ r ∈ (runReads s load c ops).map (·.record) := by
  induction ops generalizing c with
  | nil => exact ⟨rfl, rfl, fun _ _ h => .inl h⟩
  | cons op ops ih =>
    have hstep := step_spec h op
    obtain ⟨hslots, hbytes, hrec⟩ := ih hstep.inv
    refine ⟨hslots.trans hstep.nSlots, hbytes.trans hstep.slotBytes, ?_⟩
    intro i r hr
    rw [runReads, List.map_append, List.mem_append]
    rcases hrec i r hr with hr | hr
    · exact (hstep.published i r hr).imp_right .inl
    · exact .inr (.inr hr)

theorem emptyCache_inv (arena : Nat → B) (budget slotBytes nSlots : Nat) :
    RepInv s load (emptyCache arena budget slotBytes nSlots) where
  inverse := inverse_empty
  bounded := by simp [emptyCache]
  flight := by simp [emptyCache]
  slots := .nil
  keys := .nil
  absent := by simp
  loadable := by simp
  holds := by simp [emptyCache]

theorem init_ok {arena : Nat → B} {budget : UInt64} {allocOk : Bool} {c : ExpertCache B}
    (h : kvlExpertCacheInit s arena budget allocOk = .ok c) :
    c = emptyCache arena budget.toNat (alignUpSize (maxReadBytes s) expertAlign)
      (cInt (budget.toNat / alignUpSize (maxReadBytes s) expertAlign)).toNat ∧
    0 ≤ s.fd ∧ maxReadBytes s ≠ 0 ∧ alignUpSize (maxReadBytes s) expertAlign ≠ 0 ∧
    1 ≤ cInt (budget.toNat / alignUpSize (maxReadBytes s) expertAlign) := by
  unfold kvlExpertCacheInit at h
  split at h
  · simp at h
  rename_i hfd
  split at h
  · simp at h
  dsimp only at h
  split at h
  · simp at h
  split at h
  · simp at h
  split at h
  · simp at h
  split at h
  · simp only [InitResult.ok.injEq] at h
    exact ⟨h.symm, by omega, by assumption, by assumption, by omega⟩
  · simp at h

variable (load) in
theorem init_inv {arena : Nat → B} {budget : UInt64} {allocOk : Bool} {c : ExpertCache B}
    (h : kvlExpertCacheInit s arena budget allocOk = .ok c) : RepInv s load c := by
  rw [(init_ok h).1]
  exact emptyCache_inv _ _ _ _

end Kvl

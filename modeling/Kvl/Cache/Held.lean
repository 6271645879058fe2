import Kvl.Cache.History
import Kvl.Cache.PinTable

/-!
# Pins are honoured

`Held` says that a key sits in a slot with given bytes. A pinned key is never
the victim of a reservation, so every phase of every call leaves it held; only
a successful `pin_layer` of its own layer can end this, by leaving it out.
-/

namespace Kvl

set_option autoImplicit false

open ExpertCache

variable {B : Type*} {s : ExpertStore} {load : Nat → B → B}

/-- The key is resident in the slot, whose memory and record are these. -/
structure Held (c : ExpertCache B) (key slot : Nat) (bytes : B) (record : Option Nat) : Prop where
  slotOf : c.slotOf key = some slot
  keyOf : c.keyOf slot = .key key
  bytes : c.arena slot = bytes
  record : c.recordOfSlot slot = record

theorem RepInv.held {c : ExpertCache B} (h : RepInv s load c) {key slot : Nat}
    (hslot : c.slotOf key = some slot) :
    Held c key slot (c.arena slot) (c.recordOfSlot slot) :=
  ⟨hslot, h.slotOf_eq_some.mp hslot, rfl, rfl⟩

section Phases
variable {c c' : ExpertCache B} {key slot : Nat} {m : B} {rec : Option Nat}

theorem Held.congr (h : Held c key slot m rec) (hslotOf : c'.slotOf key = c.slotOf key)
    (hkeyOf : c'.keyOf slot = c.keyOf slot) (harena : c'.arena slot = c.arena slot)
    (hrec : c'.recordOfSlot slot = c.recordOfSlot slot) : Held c' key slot m rec where
  slotOf := hslotOf.trans h.slotOf
  keyOf := hkeyOf.trans h.keyOf
  bytes := harena.trans h.bytes
  record := hrec.trans h.record

/-- The slot of a pinned key is no victim. -/
theorem Held.ne_victim (h : Held c key slot m rec) (hpin : c.isPinned key = true)
    {avoid : List Nat} {victim : Nat} (hpick : c.pickVictim avoid = some victim) :
    slot ≠ victim := by
  rintro rfl
  obtain ⟨_, _, hfree⟩ := pickVictim_spec hpick
  have hno := (hfree key h.keyOf).1
  rw [hpin] at hno
  simp at hno

theorem Held.reserve (h : Held c key slot m rec) (hpin : c.isPinned key = true)
    {avoid : List Nat} {victim : Nat} (hpick : c.pickVictim avoid = some victim) :
    Held (c.reserveSlot victim) key slot m rec := by
  have hne := h.ne_victim hpin hpick
  apply h.congr
  · rw [reserveSlot_kept hpick (.inl hpin) h.slotOf, h.slotOf]
  · rw [reserveSlot_keyOf, Function.update_of_ne hne]
  · rw [reserveSlot_arena]
  · rw [reserveSlot_recordOfSlot, Function.update_of_ne hne]

@[simp] theorem reserveSlot_isPinned (c : ExpertCache B) (slot key : Nat) :
    (c.reserveSlot slot).isPinned key = c.isPinned key := by
  simp [isPinned]

theorem Held.loadIntoSlot (h : Held c key slot m rec) {victim r : Nat} (hne : slot ≠ victim)
    (read : ReadResult B) : Held (Kvl.loadIntoSlot s load c victim r read) key slot m rec := by
  obtain ⟨hslotOf, hkeyOf, hrec, _⟩ := loadIntoSlot_tables s load c victim r read
  apply h.congr
  · rw [hslotOf]
  · rw [hkeyOf]
  · rw [loadIntoSlot_arena, Function.update_of_ne hne]
  · rw [hrec]

theorem Held.settleGet (h : Held c key slot m rec) {victim key' r : Nat} (hne : slot ≠ victim)
    (hkey : key ≠ key') (ok : Bool) :
    Held (Kvl.settleGet s c victim key' r ok).cache key slot m rec := by
  unfold Kvl.settleGet
  split
  · exact h.congr (Function.update_of_ne hkey _ _) (Function.update_of_ne hne _ _) rfl
      (Function.update_of_ne hne _ _)
  · exact h.congr rfl (Function.update_of_ne hne _ _) rfl rfl

theorem Held.get (h : Held c key slot m rec) (hinv : RepInv s load c)
    (hpin : c.isPinned key = true) (layer expert : Int) (read : ReadResult B) :
    Held (kvlExpertCacheGet s load c layer expert read).cache key slot m rec := by
  have hcase := get_cases s load c layer expert read
  generalize kvlExpertCacheGet s load c layer expert read = res at hcase ⊢
  cases hcase with
  | rejected hkey => exact h
  | hit hkey hres => exact h.congr rfl rfl rfl rfl
  | refused hkey habs hwhy => exact h.congr rfl rfl rfl rfl
  | @missed key' victim r hkey habs hrec hfits hpick =>
    have hpick' : (countMiss (countRequest c)).pickVictim [] = some victim := by
      rwa [pickVictim_counters]
    have hcount : Held (countMiss (countRequest c)) key slot m rec := h.congr rfl rfl rfl rfl
    have hne := h.ne_victim hpin hpick
    have hother : key ≠ key' := by
      rintro rfl
      have hnone := (residentSlot_eq_none hinv).mp habs
      rw [h.slotOf] at hnone
      simp at hnone
    exact ((hcount.reserve hpin hpick').loadIntoSlot hne read).settleGet hne hother read.ok

/-- Phase 1 leaves a pinned key alone and reserves neither its slot nor the key. -/
theorem Held.reserveBatch {layer : Int} {avoid : List Nat} {ids : List Int} {W : List PrefetchWork}
    (h : Held c key slot m rec) (hpin : c.isPinned key = true)
    (hslots : slot ∉ W.map (·.slot)) (hkeys : key ∉ W.map (·.key)) :
    Held (Kvl.reserveBatch s layer avoid ids c W).1 key slot m rec ∧
      slot ∉ (Kvl.reserveBatch s layer avoid ids c W).2.map (·.slot) ∧
      key ∉ (Kvl.reserveBatch s layer avoid ids c W).2.map (·.key) := by
  induction ids generalizing c W with
  | nil => exact ⟨h, hslots, hkeys⟩
  | cons e es ih =>
    unfold Kvl.reserveBatch
    have hcase := reserve_cases (s := s) layer avoid e c W
    generalize reserveStep s layer avoid e c W = res at hcase ⊢
    cases hcase with
    | skip hwhy => exact ih h hpin hslots hkeys
    | noVictim hkey habs hnew hload hpick => exact ⟨h, hslots, hkeys⟩
    | @reserved key' victim r hkey habs hnew hload hpick =>
      have hne := h.ne_victim hpin hpick
      have hother : key ≠ key' := by
        rintro rfl
        rw [h.slotOf] at habs
        simp at habs
      apply ih (h.reserve hpin hpick) (by simpa using hpin)
      · simpa [hne] using hslots
      · simpa [hother] using hkeys

theorem Held.publishBatch {W : List PrefetchWork} (h : Held c key slot m rec)
    (hslots : slot ∉ W.map (·.slot)) (hkeys : key ∉ W.map (·.key)) :
    Held (W.foldl (publishWork s) c) key slot m rec := by
  induction W generalizing c with
  | nil => exact h
  | cons w W ih =>
    simp only [List.map_cons, List.mem_cons, not_or] at hslots hkeys
    apply ih _ hslots.2 hkeys.2
    unfold publishWork
    split
    · exact h.congr (Function.update_of_ne hkeys.1 _ _) (Function.update_of_ne hslots.1 _ _) rfl
        (Function.update_of_ne hslots.1 _ _)
    · exact h.congr rfl (Function.update_of_ne hslots.1 _ _) rfl
        (Function.update_of_ne hslots.1 _ _)

theorem Held.getmany (h : Held c key slot m rec) (hpin : c.isPinned key = true) (layer : Int)
    (experts : Option (List Int)) (n : Int) (env : BatchEnv s B) :
    Held (kvlExpertCacheGetmany s load c layer experts n env).cache key slot m rec := by
  have hcase := getmany_cases s load c layer experts n env
  generalize kvlExpertCacheGetmany s load c layer experts n env = res at hcase ⊢
  cases hcase with
  | idle rc => exact h
  | none rc => exact h.congr rfl rfl rfl rfl
  | batch ids d W hreserve =>
    have hcount : Held (countBatch c) key slot m rec := h.congr rfl rfl rfl rfl
    obtain ⟨hheld, hslots, hkeys⟩ :=
      @Held.reserveBatch B s (countBatch c) key slot m rec layer
        (batchAvoid s (countBatch c) layer ids) ids [] hcount hpin (by simp) (by simp)
    rw [hreserve] at hheld hslots hkeys
    have hperm := env.qsort.perm W
    have hslots' : slot ∉ (env.qsort.sort W).map (·.slot) := fun hm =>
      hslots ((hperm.map _).mem_iff.mp hm)
    have hkeys' : key ∉ (env.qsort.sort W).map (·.key) := fun hm =>
      hkeys ((hperm.map _).mem_iff.mp hm)
    obtain ⟨arena, heq, hkeep⟩ := loadBatch_frame load env.read 0 (env.qsort.sort W) d
    have htarget := loadBatch_target load env.read 0 (env.qsort.sort W) d
    have hsameSlots : (loadBatch load env.read 0 (env.qsort.sort W) d).2.map (·.slot) =
        (env.qsort.sort W).map (·.slot) := by
      simpa [PrefetchWork.target, Function.comp_def] using congrArg (List.map Prod.fst) htarget
    have hsameKeys : (loadBatch load env.read 0 (env.qsort.sort W) d).2.map (·.key) =
        (env.qsort.sort W).map (·.key) := by
      simpa [PrefetchWork.target, Function.comp_def] using
        congrArg (List.map fun t => t.2.1) htarget
    have hloaded : Held (loadBatch load env.read 0 (env.qsort.sort W) d).1 key slot m rec := by
      rw [heq]
      exact hheld.congr rfl rfl (hkeep slot hslots') rfl
    exact hloaded.publishBatch (hsameSlots ▸ hslots') (hsameKeys ▸ hkeys')

end Phases

section Runs

/-- A successful `pin_layer` of the layer that leaves the expert out. -/
def Omits (s : ExpertStore) (c : ExpertCache B) (layer expert : Int) (op : CacheOp s B) : Prop :=
  ∃ experts n allocOk, op = .pinLayer layer experts n allocOk ∧
    (kvlExpertCachePinLayer s c layer experts n allocOk).rc = 0 ∧ expert ∉ pinIds experts n

theorem keyFor_layer_inj {layer layer' e e' : Int} {k : Nat} (h : keyFor s layer e = some k)
    (h' : keyFor s layer' e' = some k) : layer = layer' := by
  obtain ⟨hr, heq⟩ := keyFor_inRange h
  obtain ⟨hr', heq'⟩ := keyFor_inRange h'
  exact (flatKey_inj hr hr' (heq.trans heq'.symm)).1

theorem inRow_layer {layer layer' e : Int} {k : Nat} (h : keyFor s layer e = some k)
    (hpos : 0 ≤ layer') (hrow : InRow s layer' k) : layer' = layer := by
  obtain ⟨hrow', _⟩ := keyFor_inRow h
  obtain ⟨⟨h0, _⟩, _⟩ := keyFor_inRange h
  have hlt : ∀ {a b : Nat}, a * s.nExperts ≤ k → k < b * s.nExperts + s.nExperts → a ≤ b := by
    intro a b hlow hhigh
    by_contra hgt
    have hmul : (b + 1) * s.nExperts ≤ a * s.nExperts := Nat.mul_le_mul_right _ (by omega)
    rw [Nat.succ_mul] at hmul
    omega
  have h1 := hlt hrow.1 hrow'.2
  have h2 := hlt hrow'.1 hrow.2
  omega

theorem pinLayer_rc_layer {c : ExpertCache B} {layer : Int} {experts : Option (List Int)} {n : Int}
    {allocOk : Bool} (h : (kvlExpertCachePinLayer s c layer experts n allocOk).rc = 0) :
    0 ≤ layer := by
  unfold kvlExpertCachePinLayer at h
  split at h
  · simp at h
  · omega

/-- A pin survives every call but a `pin_layer` that omits it. -/
theorem pinned_step {c : ExpertCache B} {layer expert : Int} {key : Nat}
    (hkey : keyFor s layer expert = some key) (hpin : c.isPinned key = true) (op : CacheOp s B)
    (hkeep : ¬ Omits s c layer expert op) : (step s load c op).cache.isPinned key = true := by
  have same : ∀ c' : ExpertCache B, c'.pinnedOf = c.pinnedOf → c'.isPinned key = true := by
    intro c' hc'
    rw [isPinned, hc']
    exact hpin
  cases op with
  | get layer' expert' read => exact same _ (get_pinnedOf c layer' expert' read)
  | getmany layer' experts n env => exact same _ (getmany_pinnedOf c layer' experts n env)
  | resident layer' expert' =>
    apply same
    change (kvlExpertCacheResident s c layer' expert').cache.pinnedOf = c.pinnedOf
    unfold kvlExpertCacheResident
    split
    · rfl
    split <;> rfl
  | resetStats => exact same _ rfl
  | pinLayer layer' experts n allocOk =>
    change (kvlExpertCachePinLayer s c layer' experts n allocOk).cache.isPinned key = true
    have hcase := pin_cases (s := s) c layer' experts n allocOk
    have hpos := @pinLayer_rc_layer B s c layer' experts n allocOk
    have homit : (kvlExpertCachePinLayer s c layer' experts n allocOk).rc = 0 → layer' = layer →
        expert ∈ pinIds experts n := by
      rintro hrc rfl
      by_contra hout
      exact hkeep ⟨experts, n, allocOk, rfl, hrc, hout⟩
    generalize kvlExpertCachePinLayer s c layer' experts n allocOk = res at hcase hpos homit ⊢
    cases hcase with
    | refused => exact hpin
    | @replaced p hids hp =>
      apply (hp key).mpr
      by_cases hrow : InRow s layer' key
      · obtain rfl := inRow_layer hkey (hpos rfl) hrow
        exact .inr ⟨expert, homit rfl rfl, hkey⟩
      · exact .inl ⟨hpin, hrow⟩

theorem Held.step {c : ExpertCache B} {key slot : Nat} {m : B} {rec : Option Nat}
    (h : Held c key slot m rec) (hinv : RepInv s load c) (hpin : c.isPinned key = true)
    (op : CacheOp s B) : Held (Kvl.step s load c op).cache key slot m rec := by
  cases op with
  | get layer expert read => exact h.get hinv hpin layer expert read
  | getmany layer experts n env => exact h.getmany hpin layer experts n env
  | pinLayer layer experts n allocOk =>
    obtain ⟨p, hp⟩ := pinLayer_sameButPins (s := s) c layer experts n allocOk
    change Held (kvlExpertCachePinLayer s c layer experts n allocOk).cache key slot m rec
    rw [hp]
    exact h.congr rfl rfl rfl rfl
  | resident layer expert =>
    change Held (kvlExpertCacheResident s c layer expert).cache key slot m rec
    unfold kvlExpertCacheResident
    split
    · exact h
    split <;> exact h
  | resetStats => exact h.congr rfl rfl rfl rfl

/-- No call of the history omits the expert from the pins of its layer. -/
def KeepsPinned (s : ExpertStore) (load : Nat → B → B) (c : ExpertCache B) (layer expert : Int)
    (ops : List (CacheOp s B)) : Prop :=
  ∀ before op after, ops = before ++ op :: after →
    ¬ Omits s (run s load c before) layer expert op

theorem KeepsPinned.head {c : ExpertCache B} {layer expert : Int} {op : CacheOp s B}
    {ops : List (CacheOp s B)} (h : KeepsPinned s load c layer expert (op :: ops)) :
    ¬ Omits s c layer expert op := h [] op ops rfl

theorem KeepsPinned.tail {c : ExpertCache B} {layer expert : Int} {op : CacheOp s B}
    {ops : List (CacheOp s B)} (h : KeepsPinned s load c layer expert (op :: ops)) :
    KeepsPinned s load (Kvl.step s load c op).cache layer expert ops := by
  rintro before op' after rfl
  exact h (op :: before) op' after rfl

theorem Held.run {c : ExpertCache B} {layer expert : Int} {key slot : Nat} {m : B}
    {rec : Option Nat} (h : Held c key slot m rec) (hinv : RepInv s load c)
    (hkey : keyFor s layer expert = some key) (hpin : c.isPinned key = true)
    {ops : List (CacheOp s B)} (hkeep : KeepsPinned s load c layer expert ops) :
    Held (Kvl.run s load c ops) key slot m rec := by
  induction ops generalizing c with
  | nil => exact h
  | cons op ops ih =>
    exact ih (h.step hinv hpin op) (step_spec hinv op).inv (pinned_step hkey hpin op hkeep.head)
      hkeep.tail

end Runs

section Full

/-- Residency, contents and pins are the same; only counters may differ. -/
structure SameContents (c c' : ExpertCache B) : Prop where
  arena : c'.arena = c.arena
  slotOf : c'.slotOf = c.slotOf
  keyOf : c'.keyOf = c.keyOf
  recordOfSlot : c'.recordOfSlot = c.recordOfSlot
  usedAt : c'.usedAt = c.usedAt
  pinnedOf : c'.pinnedOf = c.pinnedOf

/-- Every slot holds a pinned resident key. -/
def AllPinned (c : ExpertCache B) : Prop :=
  ∀ i < c.nSlots, ∃ k, c.keyOf i = .key k ∧ c.isPinned k = true

theorem AllPinned.noVictim {c : ExpertCache B} (h : AllPinned c) (avoid : List Nat) :
    c.pickVictim avoid = none := by
  cases hpick : c.pickVictim avoid with
  | none => rfl
  | some victim =>
    obtain ⟨hlt, _, hfree⟩ := pickVictim_spec hpick
    obtain ⟨k, hk, hpin⟩ := h victim hlt
    have hno := (hfree k hk).1
    rw [hpin] at hno
    simp at hno

theorem get_allPinned {c : ExpertCache B} (hinv : RepInv s load c) (h : AllPinned c)
    {layer expert : Int} (habs : ∀ key, keyFor s layer expert = some key → c.slotOf key = none)
    (read : ReadResult B) :
    (kvlExpertCacheGet s load c layer expert read).rc = -1 ∧
      (kvlExpertCacheGet s load c layer expert read).reads = [] ∧
      SameContents c (kvlExpertCacheGet s load c layer expert read).cache := by
  have hcase := get_cases s load c layer expert read
  generalize kvlExpertCacheGet s load c layer expert read = res at hcase ⊢
  cases hcase with
  | rejected hkey => exact ⟨rfl, rfl, rfl, rfl, rfl, rfl, rfl, rfl⟩
  | refused hkey hnone hwhy => exact ⟨rfl, rfl, rfl, rfl, rfl, rfl, rfl, rfl⟩
  | hit hkey hres =>
    have hslot := (residentSlot_eq_some hinv).mp hres
    rw [habs _ hkey] at hslot
    simp at hslot
  | missed hkey hnone hrec hfits hpick =>
    rw [h.noVictim []] at hpick
    simp at hpick

end Full

/-- What `pin_layer` may change: nothing when it refuses, one row when it does not. -/
structure PinFrame (s : ExpertStore) (c : ExpertCache B) (layer : Int)
    (experts : Option (List Int)) (n : Int) (res : CallResult B) : Prop where
  rejected : res.rc ≠ 0 → res.cache = c
  contents : SameButPins c res.cache
  others : res.rc = 0 → ∀ k, ¬ InRow s layer k → res.cache.isPinned k = c.isPinned k
  row : res.rc = 0 → ∀ expert key, keyFor s layer expert = some key →
    (res.cache.isPinned key = true ↔ expert ∈ pinIds experts n)

theorem pinLayer_frame (c : ExpertCache B) (layer : Int) (experts : Option (List Int)) (n : Int)
    (allocOk : Bool) :
    PinFrame s c layer experts n (kvlExpertCachePinLayer s c layer experts n allocOk) := by
  have hsame := pinLayer_sameButPins (s := s) c layer experts n allocOk
  have hcase := pin_cases (s := s) c layer experts n allocOk
  generalize kvlExpertCachePinLayer s c layer experts n allocOk = res at hcase hsame ⊢
  cases hcase with
  | refused => exact ⟨fun _ => rfl, hsame, by simp, by simp⟩
  | @replaced p hids hp =>
    refine ⟨by simp, hsame, fun _ k hrow => ?_, fun _ expert key hkey => ?_⟩
    · rw [Bool.eq_iff_iff]
      refine (hp k).trans ⟨?_, fun hpin => .inl ⟨hpin, hrow⟩⟩
      rintro (⟨hpin, _⟩ | ⟨e, _, hkey⟩)
      · exact hpin
      · exact absurd (keyFor_inRow hkey).1 hrow
    · refine (hp key).trans ⟨?_, fun he => .inr ⟨expert, he, hkey⟩⟩
      rintro (⟨_, hrow⟩ | ⟨e, he, hkey'⟩)
      · exact absurd (keyFor_inRow hkey).1 hrow
      · rwa [keyFor_inj hkey hkey']

/-- The pin policy of the cache, in every state a history reaches. -/
structure PinsHonoured (s : ExpertStore) (load : Nat → B → B) (c : ExpertCache B) : Prop where
  held : ∀ layer expert key slot, keyFor s layer expert = some key → c.slotOf key = some slot →
    c.isPinned key = true → ∀ later, KeepsPinned s load c layer expert later →
      Held (run s load c later) key slot (c.arena slot) (c.recordOfSlot slot)
  frame : ∀ layer experts n allocOk, PinFrame s c layer experts n
    (kvlExpertCachePinLayer s c layer experts n allocOk)
  full : AllPinned c → ∀ layer expert read,
    (∀ key, keyFor s layer expert = some key → c.slotOf key = none) →
      (kvlExpertCacheGet s load c layer expert read).rc = -1 ∧
      SameContents c (kvlExpertCacheGet s load c layer expert read).cache

theorem pins_honoured {arena : Nat → B} {budget : UInt64} {allocOk : Bool} {c₀ : ExpertCache B}
    (hinit : kvlExpertCacheInit s arena budget allocOk = .ok c₀) (ops : List (CacheOp s B)) :
    PinsHonoured s load (run s load c₀ ops) := by
  have hinv := run_inv (init_inv load hinit) ops
  refine ⟨?_, pinLayer_frame _, ?_⟩
  · intro layer expert key slot hkey hslot hpin later hkeep
    exact (hinv.held hslot).run hinv hkey hpin hkeep
  · intro hfull layer expert read habs
    obtain ⟨hrc, _, hsame⟩ := get_allPinned hinv hfull habs read
    exact ⟨hrc, hsame⟩

/-- One slot, pinned to expert 0: a `get` of expert 1 fails and expert 0 stays. -/
theorem pins_honoured_twoExperts :
    PinsHonoured twoExperts (fun r _ => r)
      (run twoExperts (fun r _ => r) (emptyCache (fun _ => 7) 5000 4096 1)
        [.get 1 0 .delivered, .pinLayer 1 (some [0]) 1 true, .get 1 1 .delivered]) :=
  @pins_honoured Nat twoExperts (fun r _ => r) _ _ _ _ twoExperts_init _

end Kvl

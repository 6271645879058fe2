import Kvl.Cache.Lru
import Kvl.Cache.PinTable

/-!
# A batch before its gets

A batched prefetch may drop a key of the batch itself, and does not stamp its
hits. Both only concern keys of the batch, and of the other keys it drops the
oldest, never so many that the gets after it would have kept one. So the gets
bring the cache to the order they would have reached without the batch.
-/

namespace Kvl

set_option autoImplicit false

open ExpertCache

variable {B : Type*} {s : ExpertStore} {load : Nat → B → B}

/-! ### Reachable states -/

theorem publishWork_stamped {c : ExpertCache B} (h : Stamped c) (w : PrefetchWork) :
    Stamped (publishWork s c w) := by
  unfold publishWork
  split
  · refine h.stamp rfl rfl ?_
    intro i hi hne
    dsimp only at hne
    rwa [Function.update_of_ne hi] at hne
  · refine h.congr rfl rfl ?_
    intro i hne
    dsimp only at hne
    rw [Function.update_apply] at hne
    split at hne
    · exact absurd rfl hne
    · exact hne

theorem publishBatch_stamped (W : List PrefetchWork) {c : ExpertCache B} (h : Stamped c) :
    Stamped (W.foldl (publishWork s) c) := by
  induction W generalizing c with
  | nil => exact h
  | cons w W ih => exact ih (publishWork_stamped h w)

theorem reserveBatch_stamped (layer : Int) (avoid : List Nat) (ids : List Int)
    {c : ExpertCache B} {W : List PrefetchWork} (h : Stamped c) :
    Stamped (reserveBatch s layer avoid ids c W).1 := by
  induction ids generalizing c W with
  | nil => exact h
  | cons e es ih =>
    unfold reserveBatch
    have hcase := reserve_cases (s := s) layer avoid e c W
    generalize reserveStep s layer avoid e c W = res at hcase ⊢
    cases hcase with
    | skip hwhy => exact ih h
    | noVictim hkey habs hnew hload hpick => exact h
    | reserved hkey habs hnew hload hpick => exact ih (reserveSlot_stamped h _)

theorem getmany_stamped {c : ExpertCache B} (h : Stamped c) (layer : Int)
    (experts : Option (List Int)) (n : Int) (env : BatchEnv s B) :
    Stamped (kvlExpertCacheGetmany s load c layer experts n env).cache := by
  have hcase := getmany_cases s load c layer experts n env
  generalize kvlExpertCacheGetmany s load c layer experts n env = res at hcase ⊢
  cases hcase with
  | idle rc => exact h
  | none rc => exact h.congr rfl rfl fun _ hi => hi
  | batch ids d W hreserve =>
    have hcount : Stamped (countBatch c) := h.congr rfl rfl fun _ hi => hi
    have hd := @reserveBatch_stamped B s layer (batchAvoid s (countBatch c) layer ids) ids _ []
      hcount
    rw [hreserve] at hd
    obtain ⟨arena, hframe, -⟩ := loadBatch_frame load env.read 0 (env.qsort.sort W) d
    apply publishBatch_stamped
    rw [hframe]
    exact hd.congr rfl rfl fun _ hi => hi

theorem get_stamped {c : ExpertCache B} (h : Stamped c) (layer expert : Int)
    (read : ReadResult B) : Stamped (kvlExpertCacheGet s load c layer expert read).cache := by
  have hcase := get_cases s load c layer expert read
  generalize kvlExpertCacheGet s load c layer expert read = res at hcase ⊢
  cases hcase with
  | rejected hkey => exact h
  | @hit key slot hkey hres =>
    have hcount : Stamped (countRequest c) := h.congr rfl rfl fun _ hi => hi
    exact hcount.stamp rfl rfl fun _ _ hi => hi
  | refused hkey habs hwhy => exact h.congr rfl rfl fun _ hi => hi
  | @missed key slot r hkey habs hrec hfits hpick =>
    have hcount : Stamped (countMiss (countRequest c)) := h.congr rfl rfl fun _ hi => hi
    have hreserve := reserveSlot_stamped hcount slot
    have hslot : ((countMiss (countRequest c)).reserveSlot slot).keyOf slot ≠ .empty := by
      rw [reserveSlot_keyOf, Function.update_self]
      simp
    obtain ⟨-, hkeyOf, -⟩ := loadIntoSlot_tables s load
      ((countMiss (countRequest c)).reserveSlot slot) slot r read
    have hclock : (loadIntoSlot s load ((countMiss (countRequest c)).reserveSlot slot) slot r
        read).clock = ((countMiss (countRequest c)).reserveSlot slot).clock ∧
        (loadIntoSlot s load ((countMiss (countRequest c)).reserveSlot slot) slot r
        read).usedAt = ((countMiss (countRequest c)).reserveSlot slot).usedAt := by
      unfold loadIntoSlot fillSlot
      cases read <;> exact ⟨rfl, rfl⟩
    unfold settleGet
    split
    · refine hreserve.congr hclock.2 hclock.1 ?_
      intro i hi
      dsimp only at hi
      rw [hkeyOf, Function.update_apply] at hi
      split at hi
      · rename_i he
        rw [he]
        exact hslot
      · exact hi
    · refine hreserve.congr hclock.2 hclock.1 ?_
      intro i hi
      dsimp only at hi
      rw [hkeyOf, Function.update_apply] at hi
      split at hi
      · exact absurd rfl hi
      · exact hi

theorem step_stamped {c : ExpertCache B} (h : Stamped c) (op : CacheOp s B) :
    Stamped (step s load c op).cache := by
  cases op with
  | get layer expert read => exact get_stamped h layer expert read
  | getmany layer experts n env => exact getmany_stamped h layer experts n env
  | pinLayer layer experts n allocOk =>
    obtain ⟨p, hp⟩ := pinLayer_sameButPins (s := s) c layer experts n allocOk
    change Stamped (kvlExpertCachePinLayer s c layer experts n allocOk).cache
    rw [hp]
    exact h.congr rfl rfl fun _ hi => hi
  | resident layer expert =>
    change Stamped (kvlExpertCacheResident s c layer expert).cache
    unfold kvlExpertCacheResident
    split
    · exact h
    · split <;> exact h
  | resetStats => exact h.congr rfl rfl fun _ hi => hi

theorem run_stamped {c : ExpertCache B} (h : Stamped c) (ops : List (CacheOp s B)) :
    Stamped (run s load c ops) := by
  unfold run
  induction ops generalizing c with
  | nil => exact h
  | cons op ops ih => exact ih (step_stamped h op)

/-- A call that sets no pins. -/
def CacheOp.setsNoPins : CacheOp s B → Bool
  | .pinLayer .. => false
  | _ => true

theorem step_pinnedOf (c : ExpertCache B) {op : CacheOp s B} (hop : op.setsNoPins = true) :
    (step s load c op).cache.pinnedOf = c.pinnedOf := by
  cases op with
  | get layer expert read => exact get_pinnedOf c layer expert read
  | getmany layer experts n env => exact getmany_pinnedOf c layer experts n env
  | pinLayer layer experts n allocOk => cases hop
  | resident layer expert =>
    change (kvlExpertCacheResident s c layer expert).cache.pinnedOf = c.pinnedOf
    unfold kvlExpertCacheResident
    split
    · rfl
    · split <;> rfl
  | resetStats => rfl

/-- Pins come only from `kvl_expert_cache_pin_layer`. -/
theorem run_noPins {c : ExpertCache B} (h : NoPins c) {ops : List (CacheOp s B)}
    (hops : ∀ op ∈ ops, op.setsNoPins = true) : NoPins (run s load c ops) := by
  unfold run
  induction ops generalizing c with
  | nil => exact h
  | cons op ops ih =>
    have hstep := @step_pinnedOf B s load c op (hops op List.mem_cons_self)
    exact ih (h.congr hstep) fun op' hop' => hops op' (List.mem_cons_of_mem op hop')

/-- The slots in use, the most recently stamped first. -/
def slotsByStamp (c : ExpertCache B) : List Nat :=
  ((List.range c.nSlots).filter fun i => (c.keyOf i).toKey.isSome).mergeSort
    fun i j => decide (c.usedAt j ≤ c.usedAt i)

/-- The resident keys in the order of their stamps. -/
def keysByStamp (c : ExpertCache B) : List Nat :=
  (slotsByStamp c).filterMap fun i => (c.keyOf i).toKey

theorem slotsByStamp_pairwise (c : ExpertCache B) (hs : Stamped c) :
    (slotsByStamp c).Pairwise fun i j => c.usedAt j < c.usedAt i := by
  have hperm := List.mergeSort_perm
    ((List.range c.nSlots).filter fun i => (c.keyOf i).toKey.isSome)
    fun i j => decide (c.usedAt j ≤ c.usedAt i)
  have hnodup : (slotsByStamp c).Nodup := hperm.nodup_iff.mpr (List.nodup_range.filter _)
  have hsorted : (slotsByStamp c).Pairwise fun i j => c.usedAt j ≤ c.usedAt i := by
    have h := @List.pairwise_mergeSort _ (fun i j => decide (c.usedAt j ≤ c.usedAt i))
      (by simp only [decide_eq_true_eq]; intro a b d hab hbd; omega)
      (by intro a b; simp only [Bool.or_eq_true, decide_eq_true_eq]; omega)
      ((List.range c.nSlots).filter fun i => (c.keyOf i).toKey.isSome)
    exact h.imp fun hle => of_decide_eq_true hle
  apply (hsorted.and hnodup).imp_of_mem
  rintro i j hi - ⟨hle, hne⟩
  apply lt_of_le_of_ne hle
  intro heq
  have hused : (c.keyOf i).toKey.isSome :=
    (List.mem_filter.mp (hperm.mem_iff.mp hi)).2
  have hpos : 0 < c.usedAt i := by
    apply hs.pos
    intro hempty
    rw [hempty] at hused
    cases hused
  exact hne (hs.distinct i j heq.symm hpos)

theorem keysByStamp_order {c : ExpertCache B} (hc : RepInv s load c) (hs : Stamped c) :
    RecencyOrder c (keysByStamp c) := by
  have hperm := List.mergeSort_perm
    ((List.range c.nSlots).filter fun i => (c.keyOf i).toKey.isSome)
    fun i j => decide (c.usedAt j ≤ c.usedAt i)
  constructor
  · intro k
    rw [keysByStamp, List.mem_filterMap]
    constructor
    · rintro ⟨i, -, hkey⟩
      rw [hc.slotOf_eq_some.mpr (SlotKey.toKey_eq_some.mp hkey)]
      rfl
    · intro hsome
      obtain ⟨i, hi⟩ := Option.isSome_iff_exists.mp hsome
      have hkey := hc.slotOf_eq_some.mp hi
      have hlt := hc.bounded i (by simp [hkey])
      refine ⟨i, hperm.mem_iff.mpr (List.mem_filter.mpr ⟨List.mem_range.mpr hlt, ?_⟩), ?_⟩
      · rw [hkey]
        rfl
      · rw [hkey]
        rfl
  · apply (slotsByStamp_pairwise c hs).filterMap
    intro i j hlt a ha b hb
    have hi := hc.slotOf_eq_some.mpr (SlotKey.toKey_eq_some.mp ha)
    have hj := hc.slotOf_eq_some.mpr (SlotKey.toKey_eq_some.mp hb)
    rw [stamp_of_slotOf hi, stamp_of_slotOf hj]
    exact hlt

/-! ### The keys outside a batch -/

/-- A cache in the middle of a batch: of the keys outside the batch the oldest are
gone, and never one that the requests for the batch would keep. -/
structure Outside (c : ExpertCache B) (batch rest order : List Nat) : Prop where
  recency : RecencyOrder c order
  kept : order.filter (· ∉ batch) <+: rest
  enough : order.filter (· ∉ batch) = rest ∨
    c.nSlots ≤ batch.toFinset.card + (order.filter (· ∉ batch)).length

/-- A key of the batch that is neither resident nor reserved leaves room in the batch. -/
theorem batch_room {c : ExpertCache B} {W : List PrefetchWork} {batch order : List Nat} {key : Nat}
    (hc : InFlight s load c W) (h : RecencyOrder c order) (hW : ∀ w ∈ W, w.key ∈ batch)
    (hkey : key ∈ batch) (habs : c.slotOf key = none) (hnew : key ∉ W.map (·.key)) :
    order.length + W.length + 1 ≤
      batch.toFinset.card + (order.filter (· ∉ batch)).length := by
  have hsplit : order.length =
      (order.filter (· ∈ batch)).length + (order.filter (· ∉ batch)).length := by
    have hlen := List.length_eq_length_filter_add (l := order) fun k => decide (k ∈ batch)
    rw [hlen]
    congr 2
    apply List.filter_congr
    intro k _
    simp
  have hnodup : (key :: (order.filter (· ∈ batch) ++ W.map (·.key))).Nodup := by
    refine List.nodup_cons.mpr ⟨?_, List.Nodup.append (h.nodup.filter _) hc.keys ?_⟩
    · rw [List.mem_append]
      rintro (hmem | hmem)
      · have hsome := (h.resident key).mp (List.mem_filter.mp hmem).1
        rw [habs] at hsome
        cases hsome
      · exact hnew hmem
    · intro k hk hw
      obtain ⟨w, hwmem, rfl⟩ := List.mem_map.mp hw
      have hsome := (h.resident w.key).mp (List.mem_filter.mp hk).1
      rw [hc.absent w hwmem] at hsome
      cases hsome
  have hsub : (key :: (order.filter (· ∈ batch) ++ W.map (·.key))).toFinset ⊆ batch.toFinset := by
    intro k hk
    rw [List.mem_toFinset] at hk ⊢
    rcases List.mem_cons.mp hk with rfl | hk
    · exact hkey
    · rcases List.mem_append.mp hk with hk | hk
      · exact of_decide_eq_true (List.mem_filter.mp hk).2
      · obtain ⟨w, hw, rfl⟩ := List.mem_map.mp hk
        exact hW w hw
  have hcard := Finset.card_le_card hsub
  rw [List.toFinset_card_of_nodup hnodup, List.length_cons, List.length_append,
    List.length_map] at hcard
  omega

theorem Outside.reserve {c : ExpertCache B} {W : List PrefetchWork} {batch rest order avoid : List Nat}
    {slot key : Nat} (h : Outside c batch rest order) (hc : InFlight s load c W) (hpins : NoPins c)
    (hW : ∀ w ∈ W, w.key ∈ batch) (havoid : ∀ k ∈ avoid, k ∈ batch) (hkey : key ∈ batch)
    (habs : c.slotOf key = none) (hnew : key ∉ W.map (·.key))
    (hpick : c.pickVictim avoid = some slot) :
    ∃ order', Outside (c.reserveSlot slot) batch rest order' := by
  have hslots : (c.reserveSlot slot).nSlots = c.nSlots := reserveSlot_nSlots c slot
  rcases h.recency.reserve hc hpins hpick with ⟨horder, -⟩ | ⟨v, hv, -, hmin, horder, hfull⟩
  · refine ⟨order, horder, h.kept, ?_⟩
    rw [hslots]
    exact h.enough
  · by_cases hvb : v ∈ batch
    · have hfilter : (order.erase v).filter (· ∉ batch) = order.filter (· ∉ batch) := by
        rw [h.recency.nodup.erase_eq_filter, List.filter_filter]
        apply List.filter_congr
        intro k _
        by_cases hk : k ∈ batch
        · simp [hk]
        · have hne : k ≠ v := by
            rintro rfl
            exact hk hvb
          simp [hk, hne]
      refine ⟨order.erase v, horder, ?_, ?_⟩
      · rw [hfilter]
        exact h.kept
      · rw [hfilter, hslots]
        exact h.enough
    · -- the oldest key outside the batch is the last of them
      have hvout : v ∈ order.filter (· ∉ batch) := List.mem_filter.mpr ⟨hv, by simpa using hvb⟩
      have hlast : (order.filter (· ∉ batch)).erase v = (order.filter (· ∉ batch)).dropLast := by
        refine @erase_oldest c.stamp _ v (h.recency.latest.sublist List.filter_sublist) hvout ?_
        intro k hk
        obtain ⟨hmem, hkout⟩ := List.mem_filter.mp hk
        exact hmin k hmem fun hk' => (of_decide_eq_true hkout) (havoid k hk')
      have hfilter : (order.erase v).filter (· ∉ batch) = (order.filter (· ∉ batch)).dropLast := by
        rw [← hlast, h.recency.nodup.erase_eq_filter,
          (h.recency.nodup.filter _).erase_eq_filter, List.filter_filter, List.filter_filter]
        apply List.filter_congr
        intro k _
        exact Bool.and_comm _ _
      have hroom := batch_room hc h.recency hW hkey habs hnew
      refine ⟨order.erase v, horder, ?_, .inr ?_⟩
      · rw [hfilter]
        exact (List.dropLast_prefix _).trans h.kept
      · rw [hfilter, hslots, List.length_dropLast]
        omega

theorem reserveBatch_outside {layer : Int} {avoid batch rest : List Nat} {ids : List Int}
    {c : ExpertCache B} {W : List PrefetchWork} {order : List Nat} (h : Outside c batch rest order)
    (hc : InFlight s load c W) (hpins : NoPins c) (hW : ∀ w ∈ W, w.key ∈ batch)
    (havoid : ∀ k ∈ avoid, k ∈ batch)
    (hids : ∀ e ∈ ids, ∀ key, keyFor s layer e = some key → key ∈ batch) :
    (∃ order', Outside (reserveBatch s layer avoid ids c W).1 batch rest order') ∧
      ∀ w ∈ (reserveBatch s layer avoid ids c W).2, w.key ∈ batch := by
  induction ids generalizing c W order with
  | nil => exact ⟨⟨order, h⟩, hW⟩
  | cons e es ih =>
    have hes : ∀ e' ∈ es, ∀ key, keyFor s layer e' = some key → key ∈ batch := fun e' he' =>
      hids e' (List.mem_cons_of_mem e he')
    unfold reserveBatch
    have hcase := reserve_cases (s := s) layer avoid e c W
    generalize reserveStep s layer avoid e c W = res at hcase ⊢
    cases hcase with
    | skip hwhy => exact ih h hc hpins hW hes
    | noVictim hkey habs hnew hload hpick => exact ⟨⟨order, h⟩, hW⟩
    | @reserved key slot r hkey habs hnew hload hpick =>
      have hbatch := hids e List.mem_cons_self key hkey
      obtain ⟨order', horder'⟩ := h.reserve hc hpins hW havoid hbatch habs hnew hpick
      apply ih horder' (hc.reserve hpick habs hnew hload false)
        (hpins.congr (reserveSlot_pinnedOf c slot))
      · intro w hw
        rcases List.mem_append.mp hw with hw | hw
        · exact hW w hw
        · rw [List.mem_singleton.mp hw]
          exact hbatch
      · exact hes

theorem Outside.publish {c : ExpertCache B} {w : PrefetchWork} {W : List PrefetchWork}
    {batch rest order : List Nat} (h : Outside c batch rest order)
    (hc : InFlight s load c (w :: W)) (hs : Stamped c) (hgot : w.got = true)
    (hw : w.key ∈ batch) : Outside (publishWork s c w) batch rest (w.key :: order) := by
  have hfilter : (w.key :: order).filter (· ∉ batch) = order.filter (· ∉ batch) :=
    List.filter_cons_of_neg (by simpa using hw)
  have hslots : (publishWork s c w).nSlots = c.nSlots := by
    unfold publishWork
    split <;> rfl
  have hslotOf : (publishWork s c w).slotOf = Function.update c.slotOf w.key (some w.slot) := by
    unfold publishWork
    rw [if_pos hgot]
  have hused : (publishWork s c w).usedAt = Function.update c.usedAt w.slot (c.clock + 1) := by
    unfold publishWork
    rw [if_pos hgot]
  refine ⟨h.recency.publish (hc.absent w List.mem_cons_self) ?_ ?_ hslotOf ?_, ?_, ?_⟩
  · intro k hk
    have hflight := hc.head_slot
    rw [hc.slotOf_eq_some.mp hk] at hflight
    cases hflight
  · intro k
    rw [hused, Function.update_self]
    exact Nat.lt_succ_of_le (hs.stamp_le k)
  · intro i hi
    rw [hused, Function.update_of_ne hi]
  · rw [hfilter]
    exact h.kept
  · rw [hfilter, hslots]
    exact h.enough

theorem publishBatch_outside {W : List PrefetchWork} {c : ExpertCache B}
    {batch rest order : List Nat} (h : Outside c batch rest order) (hc : InFlight s load c W)
    (hd : ∀ w ∈ W, w.got = true → Delivered load w.r (c.arena w.slot)) (hs : Stamped c)
    (hgot : ∀ w ∈ W, w.got = true) (hW : ∀ w ∈ W, w.key ∈ batch) :
    ∃ order', Outside (W.foldl (publishWork s) c) batch rest order' := by
  induction W generalizing c order with
  | nil => exact ⟨order, h⟩
  | cons w W ih =>
    have hpublish := h.publish hc hs (hgot w List.mem_cons_self) (hW w List.mem_cons_self)
    refine ih hpublish (hc.publishWork (hd w List.mem_cons_self)) ?_ (publishWork_stamped hs w)
      (fun v hv => hgot v (List.mem_cons_of_mem w hv)) fun v hv => hW v (List.mem_cons_of_mem w hv)
    intro v hv hv'
    rw [publishWork_arena]
    exact hd v (List.mem_cons_of_mem w hv) hv'

/-- What a batched call does to the cache: nothing, a counter, or its three phases. -/
theorem getmany_batch (c : ExpertCache B) (layer n : Int) (ids : List Int) (env : BatchEnv s B) :
    (kvlExpertCacheGetmany s load c layer (some ids) n env).cache = c ∨
      (kvlExpertCacheGetmany s load c layer (some ids) n env).cache = countBatch c ∨
      (kvlExpertCacheGetmany s load c layer (some ids) n env).cache =
        (settleBatch s load env (reserveBatch s layer
          (batchAvoid s (countBatch c) layer (ids.take n.toNat)) (ids.take n.toNat) (countBatch c)
          [])).cache := by
  unfold kvlExpertCacheGetmany settleBatch
  dsimp only
  split
  · exact .inl rfl
  split
  · exact .inl rfl
  split
  · exact .inr (.inl rfl)
  split
  · exact .inr (.inl rfl)
  refine .inr (.inr ?_)
  generalize reserveBatch s layer _ (ids.take n.toNat) (countBatch c) [] = reserved
  obtain ⟨d, W⟩ := reserved
  cases W with
  | nil => simp [Qsort.sort_nil, loadBatch]
  | cons w W => rfl

theorem Outside.congr {c c' : ExpertCache B} {batch rest order : List Nat}
    (h : Outside c batch rest order) (hslotOf : c'.slotOf = c.slotOf) (hused : c'.usedAt = c.usedAt)
    (hslots : c'.nSlots = c.nSlots) : Outside c' batch rest order where
  recency := h.recency.congr hslotOf hused
  kept := h.kept
  enough := by
    rw [hslots]
    exact h.enough

theorem getmany_outside {c : ExpertCache B} {batch rest order : List Nat}
    (h : Outside c batch rest order) (hc : RepInv s load c) (hs : Stamped c) (hpins : NoPins c)
    {layer n : Int} {ids : List Int} {env : BatchEnv s B} (hread : ∀ i, env.read i = .delivered)
    (hids : ∀ e ∈ ids, ∀ key, keyFor s layer e = some key → key ∈ batch) :
    ∃ order', Outside (kvlExpertCacheGetmany s load c layer (some ids) n env).cache batch rest
      order' := by
  have hcount : Outside (countBatch c) batch rest order := h.congr rfl rfl rfl
  rcases @getmany_batch B s load c layer n ids env with hres | hres | hres
  · exact ⟨order, by rw [hres]; exact h⟩
  · exact ⟨order, by rw [hres]; exact hcount⟩
  rw [hres]
  have htake : ∀ e ∈ ids.take n.toNat, ∀ key, keyFor s layer e = some key → key ∈ batch :=
    fun e he => hids e (List.mem_of_mem_take he)
  have havoid : ∀ k ∈ batchAvoid s (countBatch c) layer (ids.take n.toNat), k ∈ batch := by
    intro k hk
    unfold batchAvoid at hk
    split at hk
    · obtain hnil | ⟨e, he, hkey⟩ := mem_avoidKeys.mp hk
      · exact absurd hnil List.not_mem_nil
      · exact htake e he k hkey
    · exact absurd hk List.not_mem_nil
  generalize batchAvoid s (countBatch c) layer (ids.take n.toNat) = avoid at havoid ⊢
  generalize ids.take n.toNat = es at htake ⊢
  have hinv : InFlight s load (countBatch c) [] := hc.congr rfl rfl rfl rfl rfl rfl
  have hstamp : Stamped (countBatch c) := hs.congr rfl rfl fun _ hi => hi
  have hin := (reserveBatch_spec layer avoid es hinv).1
  have hreserved := @reserveBatch_stamped B s layer avoid es _ [] hstamp
  obtain ⟨⟨order', horder'⟩, hW⟩ := reserveBatch_outside hcount hinv (hpins.congr rfl)
    (fun _ hw => absurd hw List.not_mem_nil) havoid htake
  generalize reserveBatch s layer avoid es (countBatch c) [] = reserved at hin hreserved horder' hW ⊢
  obtain ⟨d, W⟩ := reserved
  have hsorted := hin.perm (env.qsort.perm W).symm
  have hloaded := hsorted.loadBatch env.read 0
  have hdelivered := loadBatch_delivered load env.read 0 _ d hsorted.slots
  obtain ⟨arena, hframe, -⟩ := loadBatch_frame load env.read 0 (env.qsort.sort W) d
  have hgot := loadBatch_got load hread 0 (env.qsort.sort W) d
  have htarget := loadBatch_target load env.read 0 (env.qsort.sort W) d
  apply publishBatch_outside _ hloaded hdelivered _ hgot
  · intro w hw
    have hmem : w.target ∈ (env.qsort.sort W).map (·.target) := by
      rw [← htarget]
      exact List.mem_map_of_mem hw
    obtain ⟨v, hv, heq⟩ := List.mem_map.mp hmem
    have hkey : v.key = w.key := congrArg (fun t => t.2.1) heq
    rw [← hkey]
    exact hW v ((env.qsort.perm W).mem_iff.mp hv)
  · exact order'
  · rw [hframe]
    exact horder'.congr rfl rfl rfl
  · rw [hframe]
    exact hreserved.congr rfl rfl fun _ hi => hi

/-! ### The batch and its gets -/

theorem Follows.of_order {c : ExpertCache B} {order : List Nat} (hc : RepInv s load c)
    (hs : Stamped c) (hpins : NoPins c) (hslots : 0 < c.nSlots)
    (hfits : ∀ k r, s.recordAt k = some r → r < s.hdr.nRecords.toNat →
      (s.record r).readBytes.toNat ≤ c.slotBytes) (h : RecencyOrder c order) :
    Follows s load c order := by
  have hlen : order.length ≤ c.nSlots := h.length_le hc
  refine ⟨hc, hs, hpins, hslots, hfits, ?_⟩
  rw [List.take_of_length_le hlen]
  exact h

/-- The ids of a batch as a trace. -/
def batchTrace (layer : Int) (ids : List Int) : List (Int × Int) := ids.map fun e => (layer, e)

theorem traceKeys_batch (layer : Int) (ids : List Int) :
    traceKeys s (batchTrace layer ids) = ids.filterMap (keyFor s layer) := by
  unfold traceKeys batchTrace
  rw [List.filterMap_map]
  rfl

/-- A batched prefetch of any ids with records changes nothing about where their
gets lead: the same keys are resident, in the same order. -/
theorem prefetch_then_gets {arena : Nat → B} {budget : UInt64} {allocOk : Bool}
    {c₀ : ExpertCache B} (hinit : kvlExpertCacheInit s arena budget allocOk = .ok c₀)
    (ops : List (CacheOp s B)) (hpins : NoPins (run s load c₀ ops)) {layer n : Int}
    {ids : List Int} {env : BatchEnv s B} (hread : ∀ i, env.read i = .delivered)
    (hids : Requests s (batchTrace layer ids)) :
    ∃ order,
      RecencyOrder (gets s load (kvlExpertCacheGetmany s load (run s load c₀ ops) layer (some ids) n
        env).cache (batchTrace layer ids)) order ∧
      RecencyOrder (gets s load (run s load c₀ ops) (batchTrace layer ids)) order := by
  have hc := run_inv (init_inv load hinit) ops
  obtain ⟨hslots, hbytes, -⟩ := run_frame (init_inv load hinit) ops
  have hs : Stamped (run s load c₀ ops) := by
    apply run_stamped
    rw [(init_ok hinit).1]
    exact emptyCache_stamped _ _ _ _
  have hpos : 0 < (run s load c₀ ops).nSlots := by
    rw [hslots]
    exact (@init_follows B s load arena budget allocOk c₀ hinit).1.slots
  have hfits : ∀ k r, s.recordAt k = some r → r < s.hdr.nRecords.toNat →
      (s.record r).readBytes.toNat ≤ (run s load c₀ ops).slotBytes := by
    intro _ r _ hr
    rw [hbytes]
    exact init_fits hinit hr
  generalize run s load c₀ ops = c at hpins hc hs hpos hfits ⊢
  have horder := keysByStamp_order hc hs
  have hbatch : ∀ e ∈ ids, ∀ key, keyFor s layer e = some key →
      key ∈ traceKeys s (batchTrace layer ids) := by
    intro e he key hkey
    rw [traceKeys_batch]
    exact List.mem_filterMap.mpr ⟨e, he, hkey⟩
  obtain ⟨order', houtside⟩ := @getmany_outside B s load c _ _ _
    ⟨horder, List.prefix_refl _, .inl rfl⟩ hc hs hpins layer n ids env hread hbatch
  have hspec := getmany_spec hc layer (some ids) n env
  have hstamped := @getmany_stamped B s load c hs layer (some ids) n env
  have hpinned := @getmany_pinnedOf B s load c layer (some ids) n env
  have hwithout := (Follows.of_order hc hs hpins hpos hfits horder).gets hids
  have hwith := (Follows.of_order hspec.inv hstamped (hpins.congr hpinned)
    (by rw [hspec.nSlots]; exact hpos) (by rw [hspec.slotBytes]; exact hfits)
    houtside.recency).gets hids
  refine ⟨_, ?_, hwithout.1.recency⟩
  have hresult := hwith.1.recency
  rw [hwith.2.1, hspec.nSlots] at hresult
  rw [hwithout.2.1]
  have henough := houtside.enough
  rw [hspec.nSlots] at henough
  rw [← Recency.take_requests_eq horder.nodup houtside.recency.nodup houtside.kept henough]
  exact hresult

/-- Two slots with one of the two experts resident, and a batch that repeats the other. -/
theorem prefetch_then_gets_twoExperts : ∃ order,
    RecencyOrder (gets twoExperts (fun r _ => r)
      (kvlExpertCacheGetmany twoExperts (fun r _ => r)
        (run twoExperts (fun r _ => r) (emptyCache (fun _ => (7 : Nat)) 8192 4096 2)
          [.get 1 0 .delivered])
        1 (some [1, 0, 1]) 3 ⟨true, true, insertionQsort _, fun _ => .delivered⟩).cache
      (batchTrace 1 [1, 0, 1])) order ∧
    RecencyOrder (gets twoExperts (fun r _ => r)
      (run twoExperts (fun r _ => r) (emptyCache (fun _ => (7 : Nat)) 8192 4096 2)
        [.get 1 0 .delivered])
      (batchTrace 1 [1, 0, 1])) order :=
  prefetch_then_gets twoExperts_init_two [.get 1 0 .delivered]
    (run_noPins (fun _ => rfl) (by simp [CacheOp.setsNoPins])) (fun _ => rfl)
    (by unfold Requests; decide +kernel)

end Kvl

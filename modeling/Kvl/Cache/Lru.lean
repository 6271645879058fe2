import Kvl.Cache.History
import Kvl.Cache.Recency
import Kvl.Cache.Sizes

/-!
# Traces of `get`

A cache that only serves `get` follows the recency list of its trace, cut off at
the number of its slots. How many slots a budget gives is a conversion to `int`.
-/

namespace Kvl

set_option autoImplicit false

open ExpertCache

section Trace

variable {B : Type*} (s : ExpertStore) (load : Nat → B → B)

/-- The key of the ids has a record of the index. -/
def InIndex (k : Nat) : Prop := ∃ r ∈ s.recordAt k, r < s.hdr.nRecords.toNat

instance (k : Nat) : Decidable (InIndex s k) := by
  unfold InIndex
  infer_instance

/-- A trace of ids whose keys have records. -/
def Requests (trace : List (Int × Int)) : Prop :=
  ∀ p ∈ trace, ∃ k, keyFor s p.1 p.2 = some k ∧ InIndex s k

def traceKeys (trace : List (Int × Int)) : List Nat := trace.filterMap fun p => keyFor s p.1 p.2

/-- One `kvl_expert_cache_get` after the other, each with a complete read. -/
def gets (c : ExpertCache B) (trace : List (Int × Int)) : ExpertCache B :=
  run s load c (trace.map fun p => .get p.1 p.2 .delivered)

/-- The keys a cache of `n` slots should hold, the most recently requested first. -/
def recentKeys (n : Nat) (trace : List (Int × Int)) : List Nat :=
  (Recency.requests [] (traceKeys s trace)).take n

/-- A cache without pins whose keys are the most recent ones of `order`. -/
structure Follows (c : ExpertCache B) (order : List Nat) : Prop where
  inv : RepInv s load c
  stamped : Stamped c
  noPins : NoPins c
  slots : 0 < c.nSlots
  fits : ∀ k r, s.recordAt k = some r → r < s.hdr.nRecords.toNat →
    (s.record r).readBytes.toNat ≤ c.slotBytes
  recency : RecencyOrder c (order.take c.nSlots)

end Trace

variable {B : Type*} {s : ExpertStore} {load : Nat → B → B}

theorem gets_cons (c : ExpertCache B) (p : Int × Int) (trace : List (Int × Int)) :
    gets s load c (p :: trace) =
      gets s load (kvlExpertCacheGet s load c p.1 p.2 .delivered).cache trace := rfl

theorem gets_append (c : ExpertCache B) (trace trace' : List (Int × Int)) :
    gets s load c (trace ++ trace') = gets s load (gets s load c trace) trace' := by
  unfold gets run
  rw [List.map_append, List.foldl_append]

theorem traceKeys_cons {p : Int × Int} {k : Nat} (h : keyFor s p.1 p.2 = some k)
    (trace : List (Int × Int)) : traceKeys s (p :: trace) = k :: traceKeys s trace :=
  List.filterMap_cons_some h

theorem Follows.get {c : ExpertCache B} {order : List Nat} (h : Follows s load c order)
    {p : Int × Int} {k : Nat} (hkey : keyFor s p.1 p.2 = some k) (hrec : InIndex s k) :
    Follows s load (kvlExpertCacheGet s load c p.1 p.2 .delivered).cache
        (Recency.request order k) ∧
      (kvlExpertCacheGet s load c p.1 p.2 .delivered).cache.nSlots = c.nSlots ∧
      (kvlExpertCacheGet s load c p.1 p.2 .delivered).cache.misses =
        c.misses + if k ∈ order.take c.nSlots then 0 else 1 := by
  obtain ⟨r, hr, hlt⟩ := hrec
  have hspec := get_spec h.inv p.1 p.2 .delivered
  have hserves := get_serves h.inv h.stamped h.recency h.noPins h.slots hkey hr (h.fits k r hr hlt)
  have hpinned := @get_pinnedOf B s load c p.1 p.2 .delivered
  have horder := hserves.recency
  rw [Recency.serve_take] at horder
  refine ⟨⟨hspec.inv, hserves.stamped, h.noPins.congr hpinned, ?_, ?_, ?_⟩, hspec.nSlots,
    hserves.misses⟩
  · rw [hspec.nSlots]
    exact h.slots
  · rw [hspec.slotBytes]
    exact h.fits
  · rw [hspec.nSlots]
    exact horder

theorem Follows.gets {c : ExpertCache B} {order : List Nat} (h : Follows s load c order)
    {trace : List (Int × Int)} (htrace : Requests s trace) :
    Follows s load (gets s load c trace) (Recency.requests order (traceKeys s trace)) ∧
      (Kvl.gets s load c trace).nSlots = c.nSlots ∧
      (Kvl.gets s load c trace).misses =
        c.misses + Recency.misses c.nSlots order (traceKeys s trace) := by
  induction trace generalizing c order with
  | nil => exact ⟨h, rfl, rfl⟩
  | cons p trace ih =>
    obtain ⟨k, hkey, hrec⟩ := htrace p List.mem_cons_self
    obtain ⟨hget, hslots, hmisses⟩ := h.get hkey hrec
    obtain ⟨hrest, hslots', hmisses'⟩ := ih hget fun q hq => htrace q (List.mem_cons_of_mem _ hq)
    rw [gets_cons, traceKeys_cons hkey, Recency.requests_cons]
    refine ⟨hrest, hslots'.trans hslots, ?_⟩
    rw [hmisses', hmisses, hslots, Recency.misses]
    omega

/-! ### From a fresh cache -/

theorem init_follows {arena : Nat → B} {budget : UInt64} {allocOk : Bool} {c : ExpertCache B}
    (h : kvlExpertCacheInit s arena budget allocOk = .ok c) :
    Follows s load c [] ∧ c.misses = 0 := by
  have hfits : ∀ k r, s.recordAt k = some r → r < s.hdr.nRecords.toNat →
      (s.record r).readBytes.toNat ≤ c.slotBytes := fun _ _ _ hr => init_fits h hr
  have hinv := init_inv load h
  obtain ⟨hc, -, -, -, hpos⟩ := init_ok h
  have hslots : 0 < c.nSlots := by
    rw [init_nSlots h]
    exact ((one_le_cInt_iff _).mp hpos).1
  rw [hc] at hinv hfits hslots ⊢
  refine ⟨⟨hinv, emptyCache_stamped _ _ _ _, fun _ => rfl, hslots, hfits, ?_⟩, rfl⟩
  rw [List.take_nil]
  exact emptyCache_recencyOrder _ _ _ _

variable (s load) in
/-- A cache that serves only `get` holds the most recent keys, and drops the oldest. -/
structure LruCache (c : ExpertCache B) : Prop where
  recent : ∀ trace, Requests s trace →
    RecencyOrder (gets s load c trace) (recentKeys s c.nSlots trace)
  evicts : ∀ trace p, Requests s (trace ++ [p]) → ∀ k,
    ((gets s load c trace).slotOf k).isSome → (gets s load c (trace ++ [p])).slotOf k = none →
    (recentKeys s c.nSlots trace).getLast? = some k

theorem traceKeys_append (trace trace' : List (Int × Int)) :
    traceKeys s (trace ++ trace') = traceKeys s trace ++ traceKeys s trace' :=
  List.filterMap_append

theorem init_lruCache {arena : Nat → B} {budget : UInt64} {allocOk : Bool} {c : ExpertCache B}
    (h : kvlExpertCacheInit s arena budget allocOk = .ok c) : LruCache s load c := by
  have hfollows := (@init_follows B s load arena budget allocOk c h).1
  have hrecent : ∀ trace, Requests s trace →
      RecencyOrder (gets s load c trace) (recentKeys s c.nSlots trace) := by
    intro trace htrace
    obtain ⟨hgets, hslots, -⟩ := hfollows.gets htrace
    have horder := hgets.recency
    rwa [hslots] at horder
  refine ⟨hrecent, ?_⟩
  intro trace p htrace k hbefore hafter
  obtain ⟨key, hkey, -⟩ := htrace p (List.mem_append_right _ List.mem_cons_self)
  have horder := hrecent trace fun q hq => htrace q (List.mem_append_left _ hq)
  have horder' := hrecent (trace ++ [p]) htrace
  have hkeys : traceKeys s (trace ++ [p]) = traceKeys s trace ++ [key] := by
    rw [traceKeys_append, traceKeys_cons hkey]
    rfl
  have hnext : recentKeys s c.nSlots (trace ++ [p]) =
      Recency.serve c.nSlots (recentKeys s c.nSlots trace) key := by
    unfold recentKeys
    rw [hkeys, Recency.requests_append, Recency.serve_take]
    rfl
  rw [hnext] at horder'
  apply Recency.eq_getLast_of_dropped (List.length_take_le _ _) hfollows.slots
  · exact (horder.resident k).mpr hbefore
  · intro hmem
    have hsome := (horder'.resident k).mp hmem
    rw [hafter] at hsome
    cases hsome

/-! ### Two budgets -/

section Budgets

variable (s load) in
/-- The stack property of two caches of one store, the second with the larger budget. -/
structure LruStackProperty (c c' : ExpertCache B) : Prop where
  smaller : LruCache s load c
  larger : LruCache s load c'
  included : c.nSlots ≤ c'.nSlots → ∀ trace, Requests s trace → ∀ k,
    ((gets s load c trace).slotOf k).isSome → ((gets s load c' trace).slotOf k).isSome
  misses : ∀ trace, Requests s trace → (gets s load c' trace).misses ≤ (gets s load c trace).misses

/-- The ids of a flat key. -/
def idsOf (s : ExpertStore) (k : Nat) : Int × Int := ((k / s.nExperts : Nat), (k % s.nExperts : Nat))

/-- The keys that a trace can ask for. -/
def askableKeys (s : ExpertStore) : Finset Nat :=
  (Finset.range s.mapN).filter fun k =>
    keyFor s (idsOf s k).1 (idsOf s k).2 = some k ∧ InIndex s k

theorem idsOf_key {layer expert : Int} {k : Nat} (h : keyFor s layer expert = some k) :
    idsOf s k = (layer, expert) := by
  have hkey := h
  unfold keyFor at h
  split at h
  · rename_i hrange
    split at h
    · cases h
    · obtain rfl := Option.some.inj h
      obtain ⟨hl, he, -, hlt⟩ := hrange
      have hle := cInt_le s.nExperts
      have hexpert : expert.toNat < s.nExperts := by omega
      unfold idsOf flatKey
      rw [Nat.mul_comm, Nat.mul_add_div (by omega), Nat.div_eq_of_lt hexpert, Nat.mul_add_mod,
        Nat.mod_eq_of_lt hexpert, Nat.add_zero, Int.toNat_of_nonneg hl, Int.toNat_of_nonneg he]
  · cases h

theorem traceKeys_askable {trace : List (Int × Int)} (htrace : Requests s trace) :
    ∀ k ∈ traceKeys s trace, k ∈ askableKeys s := by
  intro k hk
  obtain ⟨p, hp, hkey⟩ := List.mem_filterMap.mp hk
  obtain ⟨k', hkey', hrec⟩ := htrace p hp
  obtain rfl : k' = k := by simpa [hkey] using hkey'.symm
  refine Finset.mem_filter.mpr ⟨Finset.mem_range.mpr (keyFor_lt hkey), ?_, hrec⟩
  rw [idsOf_key hkey]
  exact hkey

/-- A trace that asks for the given keys. -/
theorem exists_trace {keys : List Nat} (hkeys : ∀ k ∈ keys, k ∈ askableKeys s) :
    Requests s (keys.map (idsOf s)) ∧ traceKeys s (keys.map (idsOf s)) = keys := by
  induction keys with
  | nil => exact ⟨fun _ h => absurd h List.not_mem_nil, rfl⟩
  | cons k keys ih =>
    obtain ⟨hkey, hrec⟩ := (Finset.mem_filter.mp (hkeys k List.mem_cons_self)).2
    obtain ⟨hrequests, htrace⟩ := ih fun x hx => hkeys x (List.mem_cons_of_mem _ hx)
    rw [List.map_cons]
    refine ⟨List.forall_mem_cons.mpr ⟨⟨k, hkey, hrec⟩, hrequests⟩, ?_⟩
    rw [traceKeys_cons hkey, htrace]

variable {arena arena' : Nat → B} {budget budget' : UInt64} {allocOk allocOk' : Bool}
  {c c' : ExpertCache B}

theorem gets_misses (h : kvlExpertCacheInit s arena budget allocOk = .ok c)
    {trace : List (Int × Int)} (htrace : Requests s trace) :
    (gets s load c trace).misses = Recency.misses c.nSlots [] (traceKeys s trace) := by
  obtain ⟨hfollows, hzero⟩ := @init_follows B s load arena budget allocOk c h
  rw [(hfollows.gets htrace).2.2, hzero, Nat.zero_add]

theorem gets_included (h : kvlExpertCacheInit s arena budget allocOk = .ok c)
    (h' : kvlExpertCacheInit s arena' budget' allocOk' = .ok c') (hslots : c.nSlots ≤ c'.nSlots)
    {trace : List (Int × Int)} (htrace : Requests s trace) (k : Nat)
    (hk : ((gets s load c trace).slotOf k).isSome) : ((gets s load c' trace).slotOf k).isSome := by
  have horder := (@init_lruCache B s load arena budget allocOk c h).recent trace htrace
  have horder' := (@init_lruCache B s load arena' budget' allocOk' c' h').recent trace htrace
  exact (horder'.resident k).mp
    (Recency.take_subset_take hslots _ ((horder.resident k).mpr hk))

theorem gets_misses_le_iff (h : kvlExpertCacheInit s arena budget allocOk = .ok c)
    (h' : kvlExpertCacheInit s arena' budget' allocOk' = .ok c') {trace : List (Int × Int)}
    (htrace : Requests s trace) :
    (gets s load c' trace).misses ≤ (gets s load c trace).misses ↔
      Recency.misses (slotCount s budget') [] (traceKeys s trace) ≤
        Recency.misses (slotCount s budget) [] (traceKeys s trace) := by
  rw [gets_misses h htrace, gets_misses h' htrace, init_nSlots h, init_nSlots h']

/-- With fewer slots, and a key too many for them, some trace misses more. -/
theorem exists_more_misses (h : kvlExpertCacheInit s arena budget allocOk = .ok c)
    (h' : kvlExpertCacheInit s arena' budget' allocOk' = .ok c')
    (hfewer : slotCount s budget' < slotCount s budget)
    (hmany : slotCount s budget' < (askableKeys s).card) :
    ∃ trace, Requests s trace ∧
      (gets s load c trace).misses < (gets s load c' trace).misses := by
  -- as many keys as the first cache has slots, one more, and then the first one again
  obtain ⟨keys, hsub, hcard⟩ := Finset.exists_subset_card_eq (Nat.succ_le_of_lt hmany)
  have hlen := keys.length_toList
  have hnodup := keys.nodup_toList
  cases hlist : keys.toList with
  | nil =>
    rw [hlist, hcard] at hlen
    cases hlen
  | cons k rest =>
    rw [hlist, hcard, List.length_cons] at hlen
    rw [hlist] at hnodup
    have hkeys : ∀ x ∈ k :: rest ++ [k], x ∈ askableKeys s := by
      intro x hx
      have hmem : x ∈ k :: rest := by
        rcases List.mem_append.mp hx with hx | hx
        · exact hx
        · rw [List.mem_singleton.mp hx]
          exact List.mem_cons_self
      rw [← hlist] at hmem
      exact hsub (Finset.mem_toList.mp hmem)
    obtain ⟨hrequests, htrace⟩ := exists_trace hkeys
    refine ⟨_, hrequests, Nat.lt_of_not_le fun hle => ?_⟩
    have hle' := (gets_misses_le_iff h h' hrequests).mp hle
    rw [htrace] at hle'
    have hlt := Recency.misses_round hfewer hnodup (Nat.succ.inj hlen)
    omega

/-- The larger budget is never worse exactly if `int` keeps it the larger slot
count, or a count with a slot for every key. -/
theorem lruStackProperty_iff (h : kvlExpertCacheInit s arena budget allocOk = .ok c)
    (h' : kvlExpertCacheInit s arena' budget' allocOk' = .ok c') :
    LruStackProperty s load c c' ↔
      slotCount s budget ≤ slotCount s budget' ∨
        (askableKeys s).card ≤ slotCount s budget' := by
  constructor
  · intro hstack
    by_contra hcond
    push Not at hcond
    obtain ⟨trace, htrace, hlt⟩ := @exists_more_misses B s load _ _ _ _ _ _ _ _ h h' hcond.1 hcond.2
    have hle := hstack.misses trace htrace
    omega
  · intro hcond
    refine ⟨init_lruCache h, init_lruCache h',
      fun hslots trace htrace => gets_included h h' hslots htrace, ?_⟩
    intro trace htrace
    rw [gets_misses_le_iff h h' htrace]
    rcases hcond with hslots | hall
    · exact Recency.misses_anti hslots _ _
    · exact Recency.misses_le_of_card_le hall .nil (by simp) (traceKeys_askable htrace)

end Budgets

theorem twoExperts_init_two : kvlExpertCacheInit twoExperts (fun _ => (7 : Nat)) 8192 true =
    .ok (emptyCache (fun _ => 7) 8192 4096 2) := by
  have hmax : maxReadBytes twoExperts = 4096 := by decide +kernel
  have halign : alignUpSize 4096 expertAlign = 4096 := by decide +kernel
  have hfd : 0 ≤ twoExperts.fd := by decide
  have hslots : cInt (8192 / 4096) = 2 := by decide
  simp [kvlExpertCacheInit, hfd, hmax, halign, hslots]

/-- One slot and two slots. -/
theorem lruStackProperty_iff_twoExperts :
    LruStackProperty twoExperts (fun r _ => r) (emptyCache (fun _ => (7 : Nat)) 5000 4096 1)
      (emptyCache (fun _ => 7) 8192 4096 2) :=
  (lruStackProperty_iff twoExperts_init twoExperts_init_two).mpr (.inl (by decide +kernel))

/-- Two slots, and `2 ^ 32 + 1` pages of budget, which `int` makes one slot. -/
theorem lruStackProperty_fails : ¬ ∀ (s : ExpertStore) (arena : Nat → Nat) (budget budget' : UInt64)
    (c c' : ExpertCache Nat), kvlExpertCacheInit s arena budget true = .ok c →
    kvlExpertCacheInit s arena budget' true = .ok c' → budget ≤ budget' →
    LruStackProperty s (fun r _ => r) c c' := by
  intro hall
  have hcount : 1 ≤ cInt (slotQuotient twoExperts 17592186048512) := by decide +kernel
  obtain ⟨c', hc'⟩ := @init_eq_ok twoExperts Nat (by decide) 17592186048512 (by decide)
    (fun _ => 7) (by decide +kernel) (by decide +kernel) hcount
  obtain ⟨trace, htrace, hlt⟩ := @exists_more_misses Nat twoExperts (fun r _ => r) _ _ _ _ _ _ _ _
    twoExperts_init_two hc' (by decide +kernel) (by decide +kernel)
  have hle := (hall twoExperts (fun _ => 7) 8192 17592186048512 _ c' twoExperts_init_two hc'
    (by decide)).misses trace htrace
  omega

end Kvl

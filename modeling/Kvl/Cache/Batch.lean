import Kvl.Cache.Calls

/-!
# A batch under pressure

Once pins exist, a batch protects the pinned keys and its own. If the slots
outnumber these keys, every reservation finds a victim, so a batch whose reads
all arrive leaves every member resident and has read each missing one once.
-/

namespace Kvl

set_option autoImplicit false

open ExpertCache

variable {B : Type*} {s : ExpertStore} {load : Nat → B → B}

namespace ExpertCache

theorem pickVictimFrom_isSome (c : ExpertCache B) (avoid slots : List Nat)
    (best oldest : Option Nat) (hbest : best = none → oldest = none)
    (h : best.isSome ∨ ∃ i ∈ slots, c.Victim avoid i) :
    (c.pickVictimFrom avoid slots best oldest).isSome := by
  induction slots generalizing best oldest with
  | nil => simpa [pickVictimFrom] using h
  | cons j rest ih =>
    -- a slot the search skips is not a victim
    have skip : ¬ c.Victim avoid j → best.isSome ∨ ∃ i ∈ rest, c.Victim avoid i := by
      intro hj
      rcases h with h | ⟨i, hi, hv⟩
      · exact .inl h
      · rcases List.mem_cons.mp hi with rfl | hi
        · exact absurd hv hj
        · exact .inr ⟨i, hi, hv⟩
    unfold pickVictimFrom
    split
    · rename_i hin
      exact ih best oldest hbest (skip fun hv => hv.1 hin)
    · rfl
    · rename_i k hk
      split
      · rename_i hpin
        exact ih best oldest hbest (skip fun hv => by simp [(hv.2 k hk).1] at hpin)
      · split
        · rename_i havoid
          exact ih best oldest hbest
            (skip fun hv => (hv.2 k hk).2 ((keyInList_iff k avoid).mp havoid))
        · split
          · exact ih _ _ (by simp) (.inl rfl)
          · rename_i hold
            refine ih best oldest hbest (.inl ?_)
            cases best with
            | none =>
              rw [hbest rfl] at hold
              simp [older] at hold
            | some b => rfl

theorem pickVictim_isSome {c : ExpertCache B} {avoid : List Nat} {i : Nat} (hi : i < c.nSlots)
    (hv : c.Victim avoid i) : ∃ slot, c.pickVictim avoid = some slot := by
  apply Option.isSome_iff_exists.mp
  exact c.pickVictimFrom_isSome avoid _ none none (fun _ => rfl)
    (.inr ⟨i, List.mem_range.mpr hi, hv⟩)

end ExpertCache

section Counting

/-- The key a slot is taken by: the one it holds or the one it is reserved for. -/
def TakenBy (c : ExpertCache B) (W : List PrefetchWork) (i k : Nat) : Prop :=
  c.keyOf i = .key k ∨ ∃ w ∈ W, w.slot = i ∧ w.key = k

theorem InFlight.takenBy_inj {c : ExpertCache B} {W : List PrefetchWork}
    (h : InFlight s load c W) {i j k : Nat} (hi : TakenBy c W i k) (hj : TakenBy c W j k) :
    i = j := by
  have absent : ∀ {i}, c.keyOf i = .key k → ∀ w ∈ W, w.key ≠ k := by
    rintro i hi w hw rfl
    have := h.slotOf_eq_some.mpr hi
    simp [h.absent w hw] at this
  rcases hi with hi | ⟨w, hw, rfl, rfl⟩
  · rcases hj with hj | ⟨v, hv, rfl, hvk⟩
    · have hik := h.slotOf_eq_some.mpr hi
      rw [h.slotOf_eq_some.mpr hj] at hik
      exact (Option.some.inj hik).symm
    · exact absurd hvk (absent hi v hv)
  · rcases hj with hj | ⟨v, hv, rfl, hvk⟩
    · exact absurd rfl (absent hj w hw)
    · rw [List.inj_on_of_nodup_map h.keys hv hw hvk]

/-- With more slots than protected keys, some slot may be handed out. -/
theorem InFlight.exists_victim {c : ExpertCache B} {W : List PrefetchWork}
    (h : InFlight s load c W) {avoid : List Nat} {K : Finset Nat} (hflight : ∀ w ∈ W, w.key ∈ K)
    (hpin : ∀ k i, c.isPinned k = true → c.slotOf k = some i → k ∈ K)
    (havoid : ∀ k ∈ avoid, ∀ i, c.slotOf k = some i → k ∈ K) (hcard : K.card < c.nSlots) :
    ∃ i, i < c.nSlots ∧ c.Victim avoid i := by
  by_contra hno
  push Not at hno
  have htaken : ∀ i ∈ Finset.range c.nSlots, ∃ k ∈ K, TakenBy c W i k := by
    intro i hi
    have hv := hno i (Finset.mem_range.mp hi)
    cases hk : c.keyOf i with
    | empty => exact absurd ⟨by simp [hk], by simp [hk]⟩ hv
    | inflight =>
      obtain ⟨w, hw, rfl⟩ := List.mem_map.mp ((h.flight i).mp hk)
      exact ⟨w.key, hflight w hw, .inr ⟨w, hw, rfl, rfl⟩⟩
    | key k =>
      refine ⟨k, ?_, .inl hk⟩
      have hslot := h.slotOf_eq_some.mpr hk
      by_contra hout
      apply hv
      refine ⟨by simp [hk], ?_⟩
      intro k' hk'
      obtain rfl : k = k' := by simpa [hk] using hk'
      refine ⟨?_, fun hm => hout (havoid k hm i hslot)⟩
      rw [← Bool.not_eq_true]
      exact fun hp => hout (hpin k i hp hslot)
  choose! label hlabel htake using htaken
  have hle := Finset.card_le_card_of_injOn label hlabel (by
    intro i hi j hj he
    have hj' := htake j hj
    rw [← he] at hj'
    exact h.takenBy_inj (htake i hi) hj')
  rw [Finset.card_range] at hle
  omega

end Counting

section Reserve

/-- Whether an id has a key whose expert is not in the cache. -/
def missing (s : ExpertStore) (c : ExpertCache B) (layer : Int) (e : Int) : Bool :=
  match keyFor s layer e with
  | none => false
  | some key => (c.slotOf key).isNone

/-- The records of the ids that are missing, in the order of the ids. -/
def missingRecords (s : ExpertStore) (c : ExpertCache B) (layer : Int) (ids : List Int) : List Nat :=
  (ids.filter (missing s c layer)).filterMap (kvlExpertFind s layer)

/-- A reservation evicts neither a pinned key nor one it is told to avoid. -/
theorem reserveSlot_kept {c : ExpertCache B} {avoid : List Nat} {slot k i : Nat}
    (hpick : c.pickVictim avoid = some slot) (hsafe : c.isPinned k = true ∨ k ∈ avoid)
    (hk : c.slotOf k = some i) : (c.reserveSlot slot).slotOf k = some i := by
  obtain ⟨_, hfree, hvictim⟩ := pickVictim_spec hpick
  rw [reserveSlot_slotOf]
  cases hslot : c.keyOf slot with
  | key k' =>
    have hne : k ≠ k' := by
      rintro rfl
      obtain ⟨hpin, havoid⟩ := hvictim k hslot
      rcases hsafe with hsafe | hsafe
      · simp [hpin] at hsafe
      · exact havoid hsafe
    rw [evict_slotOf_key hslot, Function.update_of_ne hne]
    exact hk
  | empty =>
    rw [evict_slotOf_of_ne (by simp [hslot])]
    exact hk
  | inflight => exact absurd hslot hfree

theorem missing_reserveSlot {c : ExpertCache B} {avoid : List Nat} {slot : Nat} {layer e : Int}
    (hpick : c.pickVictim avoid = some slot)
    (hsafe : ∀ key, keyFor s layer e = some key → key ∈ avoid) :
    missing s (c.reserveSlot slot) layer e = missing s c layer e := by
  unfold missing
  cases hkey : keyFor s layer e with
  | none => rfl
  | some key =>
    dsimp only
    cases hk : c.slotOf key with
    | some i => rw [reserveSlot_kept hpick (.inr (hsafe key hkey)) hk]
    | none =>
      cases hk' : (c.reserveSlot slot).slotOf key with
      | none => rfl
      | some i =>
        rw [reserveSlot_slotOf] at hk'
        rw [evict_slotOf_le c slot key i hk'] at hk
        simp at hk

/-- The ids of a batch: each has a key of its own, in reach of the cache. -/
structure BatchIds (s : ExpertStore) (slotBytes : Nat) (layer : Int) (avoid : List Nat)
    (ids : List Int) : Prop where
  reachable : ∀ e ∈ ids, ∃ key r, keyFor s layer e = some key ∧ Loadable s slotBytes key r
  avoided : ∀ e ∈ ids, ∀ key, keyFor s layer e = some key → key ∈ avoid
  distinct : (ids.map (keyFor s layer)).Nodup

theorem BatchIds.tail {slotBytes : Nat} {layer : Int} {avoid : List Nat} {e : Int} {ids : List Int}
    (h : BatchIds s slotBytes layer avoid (e :: ids)) : BatchIds s slotBytes layer avoid ids where
  reachable e' he := h.reachable e' (List.mem_cons_of_mem e he)
  avoided e' he := h.avoided e' (List.mem_cons_of_mem e he)
  distinct := (List.nodup_cons.mp h.distinct).2

/-- What a reservation phase that never runs out of victims has done. -/
structure Reserved (s : ExpertStore) (layer : Int) (avoid : List Nat) (ids : List Int)
    (c : ExpertCache B) (W : List PrefetchWork) (d : ExpertCache B) (V : List PrefetchWork) :
    Prop where
  kept : ∀ k i, c.isPinned k = true ∨ k ∈ avoid → c.slotOf k = some i → d.slotOf k = some i
  covered : ∀ e ∈ ids, ∀ key, keyFor s layer e = some key →
    (c.slotOf key).isSome ∨ key ∈ V.map (·.key)
  grown : W.map (·.key) ⊆ V.map (·.key)
  records : V.map (·.r) = W.map (·.r) ++ missingRecords s c layer ids

theorem reserveBatch_full {layer : Int} {avoid : List Nat} {K : Finset Nat} {ids : List Int}
    {c : ExpertCache B} {W : List PrefetchWork} (h : InFlight s load c W)
    (hids : BatchIds s c.slotBytes layer avoid ids)
    (hnew : ∀ e ∈ ids, ∀ key, keyFor s layer e = some key → key ∉ W.map (·.key))
    (hflight : ∀ w ∈ W, w.key ∈ K) (hpin : ∀ k, c.isPinned k = true → k ∈ K)
    (havoid : ∀ k ∈ avoid, k ∈ K) (hcard : K.card ≤ c.nSlots) :
    Reserved s layer avoid ids c W (reserveBatch s layer avoid ids c W).1
      (reserveBatch s layer avoid ids c W).2 := by
  induction ids generalizing c W with
  | nil => exact ⟨fun _ _ _ h => h, by simp, fun _ h => h, by simp [reserveBatch, missingRecords]⟩
  | cons e es ih =>
    obtain ⟨key, r, hkey, hload⟩ := hids.reachable e List.mem_cons_self
    have hfresh := hnew e List.mem_cons_self key hkey
    have hsame : ∀ key', keyFor s layer e = some key' → key' = key := by
      intro key' hkey'
      exact Option.some.inj (hkey'.symm.trans hkey)
    unfold reserveBatch
    have hcase := reserve_cases (s := s) layer avoid e c W
    generalize reserveStep s layer avoid e c W = res at hcase ⊢
    cases hcase with
    | skip hwhy =>
      have hres : (c.slotOf key).isSome := by
        rcases hwhy key hkey with hres | hdup | hbig
        · exact hres
        · exact absurd hdup hfresh
        · exact absurd hload.fits (Nat.not_le_of_gt (hbig r hload.record))
      have hrest := ih h hids.tail (fun e' he => hnew e' (List.mem_cons_of_mem e he)) hflight hpin
        hcard
      refine ⟨hrest.kept, ?_, hrest.grown, ?_⟩
      · intro e' he' key' hkey'
        rcases List.mem_cons.mp he' with rfl | he'
        · exact .inl (hsame key' hkey' ▸ hres)
        · exact hrest.covered e' he' key' hkey'
      · have hmiss : missing s c layer e = false := by simpa [missing, hkey] using hres
        rw [hrest.records, missingRecords, missingRecords, List.filter_cons_of_neg (by simp [hmiss])]
    | @noVictim key' r' hkey' habs _ _ hnone =>
      obtain rfl : key = key' := (hsame key' hkey').symm
      have hmem : ∀ k, k ∈ K → ∀ i, c.slotOf k = some i → k ∈ K.erase key := by
        rintro k hk i hi
        refine Finset.mem_erase.mpr ⟨?_, hk⟩
        rintro rfl
        simp [habs] at hi
      obtain ⟨i, hi, hv⟩ := @InFlight.exists_victim _ _ _ _ _ h avoid (K.erase key)
        (fun w hw => Finset.mem_erase.mpr
          ⟨fun he => hfresh (List.mem_map.mpr ⟨w, hw, he⟩), hflight w hw⟩)
        (fun k i hk hi => hmem k (hpin k hk) i hi) (fun k hk i hi => hmem k (havoid k hk) i hi)
        ((Finset.card_erase_lt_of_mem
          (havoid key (hids.avoided e List.mem_cons_self key hkey))).trans_le hcard)
      obtain ⟨slot, hslot⟩ := pickVictim_isSome hi hv
      simp [hslot] at hnone
    | @reserved key' slot r' hkey' habs _ hload' hpick =>
      obtain rfl : key = key' := (hsame key' hkey').symm
      obtain rfl : r' = r := Option.some.inj (hload'.record.symm.trans hload.record)
      have hstep := h.reserve hpick habs hfresh hload false
      have hdist := List.nodup_cons.mp hids.distinct
      have hin : key ∈ K := havoid key (hids.avoided e List.mem_cons_self key hkey)
      have hrest := ih hstep (by simpa using hids.tail) (by
          intro e' he x hx
          simp only [List.map_append, List.map_cons, List.map_nil, List.mem_append,
            List.mem_singleton, not_or]
          refine ⟨hnew e' (List.mem_cons_of_mem e he) x hx, ?_⟩
          rintro rfl
          exact hdist.1 (List.mem_map.mpr ⟨e', he, hx.trans hkey.symm⟩))
        (by
          intro w hw
          rcases List.mem_append.mp hw with hw | hw
          · exact hflight w hw
          · rw [List.mem_singleton.mp hw]
            exact hin)
        (by
          intro k hk
          exact hpin k (by simpa [isPinned] using hk))
        (by simpa using hcard)
      refine ⟨?_, ?_, ?_, ?_⟩
      · intro k i hsafe hk
        apply hrest.kept k i (by simpa [isPinned] using hsafe)
        exact reserveSlot_kept hpick hsafe hk
      · intro e' he' x hx
        rcases List.mem_cons.mp he' with rfl | he'
        · rw [hsame x hx]
          exact .inr (hrest.grown (by simp))
        · rcases hrest.covered e' he' x hx with hres | hmem
          · obtain ⟨i, hi⟩ := Option.isSome_iff_exists.mp hres
            rw [reserveSlot_slotOf] at hi
            rw [evict_slotOf_le c slot x i hi]
            exact .inl rfl
          · exact .inr hmem
      · exact fun k hk => hrest.grown (by simp [List.mem_map.mp hk])
      · have hmiss : missing s c layer e = true := by simp [missing, hkey, habs]
        have hfind : kvlExpertFind s layer e = some r' := by
          rw [kvlExpertFind_of_keyFor hkey]
          exact hload.record
        have hfilter : es.filter (missing s (c.reserveSlot slot) layer) =
            es.filter (missing s c layer) := by
          apply List.filter_congr
          intro e' he'
          exact missing_reserveSlot hpick fun x hx =>
            hids.avoided e' (List.mem_cons_of_mem e he') x hx
        rw [hrest.records, missingRecords, missingRecords, hfilter, List.filter_cons_of_pos hmiss,
          List.filterMap_cons_some hfind]
        simp

end Reserve

section Settle

variable (load) in
theorem loadBatch_got {read : Nat → ReadResult B} (hread : ∀ i, read i = .delivered) (i : Nat)
    (W : List PrefetchWork) (c : ExpertCache B) :
    ∀ w ∈ (loadBatch load read i W c).2, w.got = true := by
  induction W generalizing i c with
  | nil => simp [loadBatch]
  | cons w W ih =>
    intro v hv
    simp only [loadBatch] at hv
    rcases List.mem_cons.mp hv with rfl | hv
    · simp [hread, ReadResult.ok]
    · exact ih (i + 1) _ v hv

/-- Phase 3 leaves alone the keys it does not name. -/
theorem publishBatch_slotOf (W : List PrefetchWork) (c : ExpertCache B) {k : Nat}
    (hk : k ∉ W.map (·.key)) : (W.foldl (publishWork s) c).slotOf k = c.slotOf k := by
  induction W generalizing c with
  | nil => rfl
  | cons w W ih =>
    simp only [List.map_cons, List.mem_cons, not_or] at hk
    rw [List.foldl_cons, ih _ hk.2]
    unfold publishWork
    split
    · exact Function.update_of_ne hk.1 _ _
    · rfl

theorem publishBatch_published (W : List PrefetchWork) (c : ExpertCache B)
    (hgot : ∀ w ∈ W, w.got = true) :
    ∀ w ∈ W, ((W.foldl (publishWork s) c).slotOf w.key).isSome := by
  induction W using List.reverseRecOn generalizing c with
  | nil => simp
  | append_singleton W v ih =>
    intro w hw
    rw [List.foldl_append, List.foldl_cons, List.foldl_nil]
    have hv : v.got = true := hgot v (by simp)
    have hother := ih c fun w hw => hgot w (List.mem_append_left _ hw)
    simp only [publishWork, hv, if_true, Function.update_apply]
    split
    · rfl
    · rename_i hne
      rcases List.mem_append.mp hw with hw | hw
      · exact hother w hw
      · rw [List.mem_singleton.mp hw] at hne
        exact absurd rfl hne

/-- Phases 2 and 3 on what phase 1 has reserved. -/
def settleBatch (s : ExpertStore) (load : Nat → B → B) (env : BatchEnv s B)
    (reserved : ExpertCache B × List PrefetchWork) : CallResult B :=
  let loaded := loadBatch load env.read 0 (env.qsort.sort reserved.2) reserved.1
  ⟨(loaded.2.countP (·.got) : Nat), none, loaded.2.map (·.toRead),
    loaded.2.foldl (publishWork s) loaded.1⟩

variable (load) in
theorem getmany_eq_settleBatch {c : ExpertCache B} {layer n : Int} {ids : List Int}
    {env : BatchEnv s B} (hn : 0 < n) (hlen : ids.length ≤ n.toNat) (hwork : env.workOk = true)
    (havoid : env.avoidOk = true) :
    kvlExpertCacheGetmany s load c layer (some ids) n env =
      settleBatch s load env
        (reserveBatch s layer (batchAvoid s (countBatch c) layer ids) ids (countBatch c) []) := by
  unfold kvlExpertCacheGetmany settleBatch
  dsimp only
  rw [List.take_of_length_le hlen, if_neg (by omega), if_neg (by omega)]
  simp only [hwork, havoid, Bool.not_true, Bool.and_false, Bool.false_eq_true, if_false]
  generalize reserveBatch s layer _ ids (countBatch c) [] = reserved
  obtain ⟨d, W⟩ := reserved
  cases W with
  | nil => simp [Qsort.sort_nil, loadBatch]
  | cons w W => rfl

theorem mem_avoidKeys {layer : Int} {ids : List Int} {avoid : List Nat} {k : Nat} :
    k ∈ avoidKeys s layer ids avoid ↔ k ∈ avoid ∨ ∃ e ∈ ids, keyFor s layer e = some k := by
  induction ids generalizing avoid with
  | nil => simp [avoidKeys]
  | cons e es ih =>
    unfold avoidKeys
    cases hkey : keyFor s layer e with
    | none => simp [ih, hkey]
    | some key =>
      dsimp only
      rw [ih]
      by_cases hin : keyInList key avoid = true
      · rw [if_pos hin]
        have hmem := (keyInList_iff key avoid).mp hin
        simp only [List.mem_cons, exists_eq_or_imp, hkey, Option.some.injEq]
        constructor
        · rintro (h | h)
          · exact .inl h
          · exact .inr (.inr h)
        · rintro (h | rfl | h)
          · exact .inl h
          · exact .inl hmem
          · exact .inr h
      · rw [if_neg hin]
        simp only [List.mem_append, List.mem_cons, List.not_mem_nil, or_false, exists_eq_or_imp,
          hkey, Option.some.injEq, or_assoc, eq_comm (a := k)]

/-- What a batch does once pins are enabled, if its reads arrive. -/
structure PinnedBatch (s : ExpertStore) (c : ExpertCache B) (layer : Int) (ids : List Int)
    (res : CallResult B) : Prop where
  resident : ∀ e ∈ ids, ∀ key, keyFor s layer e = some key → (res.cache.slotOf key).isSome
  kept : ∀ k i, c.isPinned k = true → c.slotOf k = some i → res.cache.slotOf k = some i
  records : (res.reads.map (·.record)).Perm (missingRecords s c layer ids)
  delivered : ∀ rd ∈ res.reads, rd.ok = true

/-- With a slot for each pinned key and each id, the batch is complete. -/
theorem getmany_pinned {c : ExpertCache B} (h : RepInv s load c) (hpins : c.pinnedOf.isSome)
    {layer n : Int} {ids : List Int} {env : BatchEnv s B} (hn : 0 < n)
    (hlen : ids.length ≤ n.toNat) (hwork : env.workOk = true) (havoidOk : env.avoidOk = true)
    (hread : ∀ i, env.read i = .delivered)
    (hreach : ∀ e ∈ ids, ∃ key r, keyFor s layer e = some key ∧ Loadable s c.slotBytes key r)
    (hdist : (ids.map (keyFor s layer)).Nodup) {P : Finset Nat}
    (hpin : ∀ k, c.isPinned k = true → k ∈ P) (hroom : P.card + ids.length ≤ c.nSlots) :
    PinnedBatch s c layer ids (kvlExpertCacheGetmany s load c layer (some ids) n env) := by
  rw [getmany_eq_settleBatch load hn hlen hwork havoidOk]
  have havoid : batchAvoid s (countBatch c) layer ids = avoidKeys s layer ids [] := if_pos hpins
  have hmem : ∀ k, k ∈ avoidKeys s layer ids [] ↔ ∃ e ∈ ids, keyFor s layer e = some k := by
    intro k
    rw [mem_avoidKeys]
    simp
  have hcount : InFlight s load (countBatch c) [] := h.congr rfl rfl rfl rfl rfl rfl
  have hids : BatchIds s (countBatch c).slotBytes layer (avoidKeys s layer ids []) ids :=
    ⟨hreach, fun e he key hkey => (hmem key).mpr ⟨e, he, hkey⟩, hdist⟩
  have hcard : (P ∪ (ids.filterMap (keyFor s layer)).toFinset).card ≤ (countBatch c).nSlots := by
    have hunion := Finset.card_union_le P (ids.filterMap (keyFor s layer)).toFinset
    have hkeys := (List.toFinset_card_le (ids.filterMap (keyFor s layer))).trans
      (List.length_filterMap_le _ _)
    change _ ≤ c.nSlots
    omega
  have hres := reserveBatch_full (W := []) hcount hids (by simp) (by simp)
    (fun k hk => Finset.mem_union_left _ (hpin k hk))
    (fun k hk => Finset.mem_union_right _ (by
      obtain ⟨e, he, hkey⟩ := (hmem k).mp hk
      exact List.mem_toFinset.mpr (List.mem_filterMap.mpr ⟨e, he, hkey⟩))) hcard
  obtain ⟨hin, _⟩ := reserveBatch_spec layer (avoidKeys s layer ids []) ids hcount
  rw [havoid]
  generalize reserveBatch s layer (avoidKeys s layer ids []) ids (countBatch c) [] = reserved
    at hres hin ⊢
  obtain ⟨d, W⟩ := reserved
  have hgot := loadBatch_got load hread 0 (env.qsort.sort W) d
  have htarget := loadBatch_target load env.read 0 (env.qsort.sort W) d
  obtain ⟨arena, hframe, _⟩ := loadBatch_frame load env.read 0 (env.qsort.sort W) d
  have hkeys : (loadBatch load env.read 0 (env.qsort.sort W) d).2.map (·.key) =
      (env.qsort.sort W).map (·.key) := by
    simpa [PrefetchWork.target, Function.comp_def] using congrArg (List.map fun t => t.2.1) htarget
  have hrecs : (loadBatch load env.read 0 (env.qsort.sort W) d).2.map (·.r) =
      (env.qsort.sort W).map (·.r) := by
    simpa [PrefetchWork.target, Function.comp_def] using congrArg (List.map fun t => t.2.2) htarget
  have hperm : ∀ k, k ∈ (env.qsort.sort W).map (·.key) ↔ k ∈ W.map (·.key) := fun k =>
    ((env.qsort.perm W).map _).mem_iff
  have hslotOf : (loadBatch load env.read 0 (env.qsort.sort W) d).1.slotOf = d.slotOf := by
    rw [hframe]
  have hkept : ∀ k i, d.slotOf k = some i →
      (settleBatch s load env (d, W)).cache.slotOf k = some i := by
    intro k i hk
    have hout : k ∉ (loadBatch load env.read 0 (env.qsort.sort W) d).2.map (·.key) := by
      rw [hkeys, hperm]
      intro hmemk
      obtain ⟨w, hw, rfl⟩ := List.mem_map.mp hmemk
      rw [hin.absent w hw] at hk
      simp at hk
    change ((loadBatch load env.read 0 (env.qsort.sort W) d).2.foldl (publishWork s)
      (loadBatch load env.read 0 (env.qsort.sort W) d).1).slotOf k = some i
    rw [publishBatch_slotOf _ _ hout, hslotOf]
    exact hk
  refine ⟨?_, ?_, ?_, ?_⟩
  · intro e he key hkey
    rcases hres.covered e he key hkey with hold | hnew
    · obtain ⟨i, hi⟩ := Option.isSome_iff_exists.mp hold
      have hd := hres.kept key i (.inr ((hmem key).mpr ⟨e, he, hkey⟩)) hi
      rw [hkept key i hd]
      rfl
    · rw [← hperm, ← hkeys] at hnew
      obtain ⟨w, hw, rfl⟩ := List.mem_map.mp hnew
      exact publishBatch_published _ _ hgot w hw
  · intro k i hp hk
    exact hkept k i (hres.kept k i (.inl hp) hk)
  · change (((loadBatch load env.read 0 (env.qsort.sort W) d).2.map (·.toRead)).map
      (·.record)).Perm _
    have hrecords : ((loadBatch load env.read 0 (env.qsort.sort W) d).2.map (·.toRead)).map
        (·.record) = (env.qsort.sort W).map (·.r) := by
      rw [List.map_map]
      exact hrecs
    rw [hrecords]
    have hW : W.map (·.r) = missingRecords s c layer ids := hres.records
    rw [← hW]
    exact (env.qsort.perm W).map _
  · intro rd hrd
    obtain ⟨w, hw, rfl⟩ := List.mem_map.mp hrd
    exact hgot w hw

end Settle

end Kvl

import Kvl.Cache.Packed
import Kvl.Moe.Pins

/-!
# The layer-pin guarantee

A generation run calls the block layer by layer for the whole prompt and then
token by token. The phase detector sees the one step back from layer 26 to
layer 1, so pins appear with the first decoded token. From there on every
batch has room for all its experts beside the pins of all layers.
-/

namespace Kvl

set_option autoImplicit false

open ExpertCache

section Resident
variable {F D : Type*} {fl : MoeFloats F D} {s : ExpertStore} {file : Nat → UInt8}

/-- A `get` of a resident key is a hit. -/
theorem get_hit {c : ExpertCache SlotMemory} {load : Nat → SlotMemory → SlotMemory}
    (h : RepInv s load c) {layer e : Int} {key slot : Nat} (hkey : keyFor s layer e = some key)
    (hslot : c.slotOf key = some slot) (read : ReadResult SlotMemory) :
    kvlExpertCacheGet s load c layer e read =
      ⟨0, (c.recordOfSlot slot).map (publishOut s slot), [], touch (countRequest c) slot⟩ := by
  have hcase := get_cases s load c layer e read
  generalize kvlExpertCacheGet s load c layer e read = res at hcase ⊢
  have hres := (residentSlot_eq_some h).mpr hslot
  cases hcase with
  | rejected hnone => simp [hkey] at hnone
  | hit hkey' hres' =>
    obtain rfl := Option.some.inj (hkey.symm.trans hkey')
    obtain rfl := Option.some.inj (hres.symm.trans hres')
    rfl
  | refused hkey' habs _ =>
    obtain rfl := Option.some.inj (hkey.symm.trans hkey')
    simp [hres] at habs
  | missed hkey' habs _ _ _ =>
    obtain rfl := Option.some.inj (hkey.symm.trans hkey')
    simp [hres] at habs

theorem resident_rc {c : ExpertCache SlotMemory} {load : Nat → SlotMemory → SlotMemory}
    (h : RepInv s load c) {layer e : Int} {key : Nat} (hkey : keyFor s layer e = some key)
    (hres : (c.slotOf key).isSome) : (kvlExpertCacheResident s c layer e).rc = 1 := by
  obtain ⟨slot, hslot⟩ := Option.isSome_iff_exists.mp hres
  simp [kvlExpertCacheResident, hkey, (residentSlot_eq_some h).mpr hslot]

/-- What the loop leaves behind when every route is resident. -/
structure AllHits (start final : MoeLoop F) : Prop where
  gets : ∃ more, final.gets = start.gets ++ more ∧ ∀ got ∈ more,
    got.rc = 0 ∧ got.reads = [] ∧ got.cache.slotOf = start.cache.slotOf
  slotOf : final.cache.slotOf = start.cache.slotOf
  hits : final.cache.hits + start.gets.length = start.cache.hits + final.gets.length
  misses : final.cache.misses = start.cache.misses

theorem AllHits.refl (st : MoeLoop F) : AllHits st st :=
  ⟨⟨[], by simp, by simp⟩, rfl, rfl, rfl⟩

theorem AllHits.trans {a b c : MoeLoop F} (h : AllHits a b) (h' : AllHits b c) : AllHits a c := by
  obtain ⟨m, hm, hgot⟩ := h.gets
  obtain ⟨m', hm', hgot'⟩ := h'.gets
  refine ⟨⟨m ++ m', by rw [hm', hm, List.append_assoc], ?_⟩, h'.slotOf.trans h.slotOf, ?_,
    h'.misses.trans h.misses⟩
  · intro got hmem
    rcases List.mem_append.mp hmem with hmem | hmem
    · exact hgot got hmem
    · obtain ⟨h1, h2, h3⟩ := hgot' got hmem
      exact ⟨h1, h2, h3.trans h.slotOf⟩
  · have := h.hits
    have := h'.hits
    omega

theorem moeExperts_hits {a : MoeArgs F} {env : MoeEnv s F} {j : Nat} {routes : List (Nat × F)}
    {st : MoeLoop F} (h : RepInv s (kvlExpertLoad s file) st.cache)
    (hres : ∀ r ∈ routes, ∃ key, keyFor s a.layer r.1 = some key ∧ (st.cache.slotOf key).isSome) :
    AllHits st (moeExperts fl s file a env j routes st).2 ∧
      ((moeExperts fl s file a env j routes st).1 = true →
        (moeExperts fl s file a env j routes st).2.gets.length =
          st.gets.length + routes.length) := by
  induction routes generalizing j st with
  | nil => exact ⟨.refl st, fun _ => rfl⟩
  | cons route rest ih =>
    obtain ⟨key, hkey, hin⟩ := hres route List.mem_cons_self
    obtain ⟨slot, hslot⟩ := Option.isSome_iff_exists.mp hin
    have hget := get_hit h hkey hslot (env.read j)
    have hinv := (get_spec h a.layer route.1 (env.read j)).inv
    unfold moeExperts
    rw [hget] at hinv ⊢
    dsimp only
    -- one more get, and the tables as they were
    have hone : ∀ scratch out, AllHits st
        { cache := touch (countRequest st.cache) slot
          scratch := scratch
          out := out
          gets := st.gets ++ [⟨0, (st.cache.recordOfSlot slot).map (publishOut s slot), [],
            touch (countRequest st.cache) slot⟩] } := by
      intro scratch out
      refine ⟨⟨_, rfl, ?_⟩, rfl, ?_, rfl⟩
      · intro got hmem
        obtain rfl := List.mem_singleton.mp hmem
        exact ⟨rfl, rfl, rfl⟩
      · simp only [touch, countRequest, List.length_append, List.length_singleton]
        omega
    rw [if_neg (by simp)]
    split
    · exact ⟨hone _ _, by simp⟩
    split
    · exact ⟨hone _ _, by simp⟩
    · obtain ⟨hrest, hlen⟩ := @ih (j + 1) { st with
          cache := touch (countRequest st.cache) slot
          gets := st.gets ++ [⟨0, (st.cache.recordOfSlot slot).map (publishOut s slot), [],
            touch (countRequest st.cache) slot⟩]
          scratch := _
          out := _ } hinv
        fun r hr => hres r (List.mem_cons_of_mem route hr)
      refine ⟨(hone _ _).trans hrest, fun hend => ?_⟩
      rw [hlen hend]
      simp only [List.length_append, List.length_cons, List.length_nil]
      omega

/-- What holds of the cache and survives every `get` survives the loop. -/
theorem moeExperts_keeps {P : ExpertCache SlotMemory → Prop}
    (hget : ∀ c layer e read, P c → P (kvlExpertCacheGet s (kvlExpertLoad s file) c layer e read).cache)
    {a : MoeArgs F} {env : MoeEnv s F} {j : Nat} {routes : List (Nat × F)} {st : MoeLoop F}
    (h : P st.cache) : P (moeExperts fl s file a env j routes st).2.cache := by
  induction routes generalizing j st with
  | nil => exact h
  | cons route rest ih =>
    have hnext := hget st.cache a.layer route.1 (env.read j) h
    unfold moeExperts
    dsimp only
    split
    · exact hnext
    split
    · exact hnext
    split
    · exact hnext
    · exact ih hnext

theorem moeRouted_keeps {P : ExpertCache SlotMemory → Prop}
    (hget : ∀ c layer e read, P c → P (kvlExpertCacheGet s (kvlExpertLoad s file) c layer e read).cache)
    (hmany : ∀ c layer experts n env, P c →
      P (kvlExpertCacheGetmany s (kvlExpertLoad s file) c layer experts n env).cache)
    {c : ExpertCache SlotMemory} {g : LayerpinState} {a : MoeArgs F} {env : MoeEnv s F}
    {ids : List Nat} {ws : List F} (h : P c) : P (moeRouted fl s file c g a env ids ws).cache := by
  have hbatch := hmany c a.layer (some (ids.map Int.ofNat)) a.cfg.topK env.batch h
  unfold moeRouted
  dsimp only
  split
  · exact hbatch
  split
  · exact moeExperts_keeps hget hbatch
  split
  · exact moeExperts_keeps hget hbatch
  · exact moeExperts_keeps hget hbatch

theorem moeRouted_fields (c : ExpertCache SlotMemory) (g : LayerpinState) (a : MoeArgs F)
    (env : MoeEnv s F) (ids : List Nat) (ws : List F) :
    (moeRouted fl s file c g a env ids ws).pins = g ∧
      (moeRouted fl s file c g a env ids ws).getmany =
        some (kvlExpertCacheGetmany s (kvlExpertLoad s file) c a.layer
          (some (ids.map Int.ofNat)) a.cfg.topK env.batch) := by
  unfold moeRouted
  dsimp only
  split
  · exact ⟨rfl, rfl⟩
  split
  · exact ⟨rfl, rfl⟩
  split <;> exact ⟨rfl, rfl⟩

end Resident

section Routes
variable {F D : Type*} {fl : MoeFloats F D} {s : ExpertStore}

/-- `pin_routes` makes one pin call for the layer, or none. -/
theorem pinRoutes_call (c : ExpertCache SlotMemory) (layer topK : Int) (routes : List (Nat × F))
    (useHysteresis allocOk : Bool) :
    pinRoutes fl s c layer topK routes useHysteresis allocOk = (false, c, 0) ∨
      ∃ experts n retained, n ≤ (layerPinCount : Int) ∧
        pinRoutes fl s c layer topK routes useHysteresis allocOk =
          (decide ((kvlExpertCachePinLayer s c layer experts n allocOk).rc = 0),
            (kvlExpertCachePinLayer s c layer experts n allocOk).cache, retained) := by
  have hle := (nPin_le topK).1
  unfold pinRoutes
  dsimp only
  split
  · exact .inr ⟨none, 0, 0, by decide, rfl⟩
  split
  · exact .inl rfl
  split
  · exact .inl rfl
  · exact .inr ⟨_, _, _, hle, rfl⟩

theorem pinRoutes_keeps (c : ExpertCache SlotMemory) {layer topK : Int} (routes : List (Nat × F))
    (useHysteresis allocOk : Bool) :
    SameButPins c (pinRoutes fl s c layer topK routes useHysteresis allocOk).2.1 ∧
      (c.pinnedOf.isSome →
        (pinRoutes fl s c layer topK routes useHysteresis allocOk).2.1.pinnedOf.isSome) ∧
      ∀ rows, PinsBounded s c rows → 1 ≤ layer → ∃ rows',
        PinsBounded s (pinRoutes fl s c layer topK routes useHysteresis allocOk).2.1 rows' := by
  rcases @pinRoutes_call _ _ fl s c layer topK routes useHysteresis allocOk with
    heq | ⟨experts, n, _, hn, heq⟩
  · rw [heq]
    exact ⟨.refl c, fun h => h, fun rows h _ => ⟨rows, h⟩⟩
  · rw [heq]
    exact ⟨pinLayer_sameButPins c layer experts n allocOk, fun h => pinLayer_isSome (.inl h),
      fun rows h hlayer => h.pinLayer hn (.inl hlayer) experts allocOk⟩

/-- Distinct routes the cache can address are pinned without fail. -/
theorem pinRoutes_accepted {c : ExpertCache SlotMemory} {layer topK : Int}
    {routes : List (Nat × F)} {useHysteresis allocOk : Bool} (hpins : c.pinnedOf.isSome)
    (htop : 0 < topK) (hlen : routes.length = topK.toNat) (hnd : (routes.map Prod.fst).Nodup)
    (hkeys : ∀ e ∈ routes.map Prod.fst, (keyFor s layer e).isSome) (hlayers : 1 < cInt s.nLayers)
    (hslots : (cInt s.nLayers - 1) * layerPinCount + topK ≤ c.nSlots) :
    (pinRoutes fl s c layer topK routes useHysteresis allocOk).1 = true ∧
      ∃ k, (pinRoutes fl s c layer topK routes useHysteresis allocOk).2.1.isPinned k = true := by
  have hpos := (nPin_pos htop)
  have hle := (nPin_le topK).2
  obtain ⟨pins, p, hchosen, -, hplen, hpmem, heq, hp⟩ := @pinRoutes_replaces _ _ _ fl s c layer topK
    routes useHysteresis allocOk (.inl hpins) htop hlen hnd hkeys hlayers hslots
  rw [heq]
  refine ⟨rfl, ?_⟩
  obtain ⟨p₀, hp₀⟩ := List.exists_mem_of_length_pos (by omega : 0 < pins.length)
  obtain ⟨k, hk⟩ := Option.isSome_iff_exists.mp (hkeys p₀ (hpmem p₀ hp₀))
  exact ⟨k, (hp k).mpr (.inr ⟨p₀, hp₀, hk⟩)⟩

end Routes

section Generation
variable {F D : Type*} (fl : MoeFloats F D) (s : ExpertStore) (file : Nat → UInt8)

/-- The layer of the `i`-th call of a run on a prompt of `n` tokens: all tokens
through layer 1, then through layer 2 and so on, and then each decoded token
through all of them. -/
def generationLayer (n i : Nat) : Int :=
  if i < 26 * n then (i / n + 1 : Nat) else ((i - 26 * n) % 26 + 1 : Nat)

structure MoeCall (F : Type*) where
  args : MoeArgs F
  env : MoeEnv s F

structure MoeState where
  cache : ExpertCache SlotMemory
  pins : LayerpinState

/-- One call of `kvl_moe_token_gguf_q8_layerpin_auto`. -/
def moeCall (ptr : Nat) (st : MoeState) (call : MoeCall s F) : MoeResult F :=
  moeTokenGgufQ8Impl fl s file ptr st.cache st.pins call.args call.env true

/-- A run goes on as long as its calls return 0. -/
def moeRun (ptr : Nat) : MoeState → List (MoeCall s F) → Option MoeState
  | st, [] => some st
  | st, call :: calls =>
    let res := moeCall fl s file ptr st call
    if res.rc = 0 then moeRun ptr ⟨res.cache, res.pins⟩ calls else none

variable {fl s file}

/-- The state after `i` calls of a run on a prompt of `n` tokens. -/
structure RunInv (s : ExpertStore) (file : Nat → UInt8) (c₀ : ExpertCache SlotMemory)
    (ptr n i : Nat) (st : MoeState) : Prop where
  inv : RepInv s (kvlExpertLoad s file) st.cache
  nSlots : st.cache.nSlots = c₀.nSlots
  slotBytes : st.cache.slotBytes = c₀.slotBytes
  bounded : ∃ rows, PinsBounded s st.cache rows
  begun : st.cache.pinnedOf.isSome ↔ 26 * n < i
  pins : st.pins = if i = 0 then freshLayerpin else ⟨some ptr, generationLayer n (i - 1)⟩

theorem generationLayer_pos (n i : Nat) : 1 ≤ generationLayer n i := by
  unfold generationLayer
  split
  · exact_mod_cast Nat.le_add_left 1 _
  · exact_mod_cast Nat.le_add_left 1 _

variable {c₀ : ExpertCache SlotMemory} {ptr n i : Nat} {st : MoeState}

theorem RunInv.follow (h : RunInv s file c₀ ptr n i st) :
    st.pins.follow ptr = ⟨some ptr, if i = 0 then -1 else generationLayer n (i - 1)⟩ := by
  rw [h.pins]
  split
  · rfl
  · simp [LayerpinState.follow]

/-- The phase detector fires at the first call after the prompt and at no other. -/
theorem RunInv.decodeBegins_iff (h : RunInv s file c₀ ptr n i st) (hn : 0 < n) :
    decodeBegins (st.pins.follow ptr) st.cache (generationLayer n i) = true ↔ i = 26 * n := by
  have hnone : st.cache.pinnedOf.isNone = true ↔ i ≤ 26 * n := by
    rw [← not_lt, ← h.begun]
    cases st.cache.pinnedOf <;> simp
  rw [h.follow]
  simp only [decodeBegins, Bool.and_eq_true, beq_iff_eq, hnone]
  constructor
  · rintro ⟨⟨hle, hlast⟩, hfirst⟩
    by_contra hne
    have hlt : i < 26 * n := by omega
    rw [generationLayer, if_pos hlt] at hfirst
    have hdiv : i / n = 0 := by omega
    have hin : i < n := by
      rcases Nat.div_eq_zero_iff.mp hdiv with h0 | h0
      · omega
      · exact h0
    split at hlast
    · omega
    · rw [generationLayer, if_pos (by omega), Nat.div_eq_of_lt (by omega)] at hlast
      omega
  · rintro rfl
    have hpos : 26 * n ≠ 0 := by omega
    have hdiv : (26 * n - 1) / n = 25 := by
      rw [Nat.div_eq_iff hn]
      omega
    refine ⟨⟨le_rfl, ?_⟩, ?_⟩
    · rw [if_neg hpos, generationLayer, if_pos (by omega), hdiv]
      rfl
    · simp [generationLayer]

/-- The state between the phase detector and the router. -/
structure PhaseDone (s : ExpertStore) (c : ExpertCache SlotMemory) (c₁ : ExpertCache SlotMemory)
    (g₁ : LayerpinState) (ptr n i : Nat) : Prop where
  same : SameButPins c c₁
  bounded : ∃ rows, PinsBounded s c₁ rows
  begun : c₁.pinnedOf.isSome ↔ 26 * n ≤ i
  globals : g₁ = ⟨some ptr, generationLayer n i⟩

theorem RunInv.phase (h : RunInv s file c₀ ptr n i st) (hn : 0 < n) {a : MoeArgs F}
    (hlayer : a.layer = generationLayer n i) {env : MoeEnv s F} {c₁ : ExpertCache SlotMemory}
    {g₁ : LayerpinState} (hphase : enterPhase s ptr st.cache st.pins a env true = (true, c₁, g₁)) :
    PhaseDone s st.cache c₁ g₁ ptr n i := by
  have hbegins := h.decodeBegins_iff hn
  obtain ⟨rows, hrows⟩ := h.bounded
  have hpin := pinLayer_sameButPins (s := s) st.cache 0 none 0 env.sentinelAlloc
  obtain ⟨rows', hrows'⟩ := @PinsBounded.pinLayer _ _ _ _ hrows 0 0 (by decide) (.inr rfl) none
    env.sentinelAlloc
  have hsome : (kvlExpertCachePinLayer s st.cache 0 none 0 env.sentinelAlloc).rc = 0 →
      (kvlExpertCachePinLayer s st.cache 0 none 0 env.sentinelAlloc).cache.pinnedOf.isSome :=
    fun hrc => pinLayer_isSome (.inr hrc)
  have hfollow := h.follow
  have hcase := phase_cases s st.pins ptr st.cache a.layer env.sentinelAlloc
  unfold enterPhase at hphase
  rw [if_pos rfl] at hphase
  rw [hphase, hlayer] at hcase
  cases hcase with
  | idle hno =>
    have hne : i ≠ 26 * n := by
      intro he
      rw [hbegins.mpr he] at hno
      simp at hno
    refine ⟨.refl _, ⟨rows, hrows⟩, h.begun.trans ?_, by rw [hfollow]⟩
    constructor <;> intro _ <;> omega
  | begun hyes hr hrc =>
    obtain rfl := hbegins.mp hyes
    rw [hr] at hpin hrows' hsome
    exact ⟨hpin, ⟨rows', hrows'⟩, by simp [hsome hrc], by rw [hfollow]⟩

/-- The state between the pins and the batch. -/
theorem PhaseDone.updatePins {c c₁ c₂ : ExpertCache SlotMemory} {g₁ : LayerpinState}
    (h : PhaseDone s c c₁ g₁ ptr n i) {a : MoeArgs F} (hlayer : a.layer = generationLayer n i)
    {env : MoeEnv s F} {routes : List (Nat × F)} {ok : Bool}
    (hpins : Kvl.updatePins fl s c₁ a env routes true = (ok, c₂)) :
    PhaseDone s c c₂ g₁ ptr n i := by
  unfold Kvl.updatePins at hpins
  split at hpins
  · rename_i hsome
    rw [Bool.true_and] at hsome
    obtain ⟨hsame, hkeep, hbound⟩ := @pinRoutes_keeps _ _ fl s c₁ a.layer a.cfg.topK routes
        (true && layerpinHysteresisEnabled env.hysteresis) env.pinAlloc
    obtain ⟨-, rfl⟩ := Prod.mk.inj hpins
    obtain ⟨rows, hrows⟩ := h.bounded
    obtain ⟨rows', hrows'⟩ := hbound rows hrows (hlayer ▸ generationLayer_pos n i)
    refine ⟨h.same.trans hsame, ⟨rows', hrows'⟩, ?_, h.globals⟩
    exact iff_of_true (hkeep hsome) (h.begun.mp hsome)
  · obtain ⟨_, rfl⟩ := Prod.mk.inj hpins
    exact h

/-- One call that returns 0 takes the run from `i` calls to `i + 1`. -/
theorem RunInv.step (h : RunInv s file c₀ ptr n i st) (hn : 0 < n) {call : MoeCall s F}
    (hlayer : call.args.layer = generationLayer n i)
    (hrc : (moeCall fl s file ptr st call).rc = 0) :
    RunInv s file c₀ ptr n (i + 1)
      ⟨(moeCall fl s file ptr st call).cache, (moeCall fl s file ptr st call).pins⟩ := by
  have hcase := moe_cases fl s file ptr st.cache st.pins call.args call.env true
  unfold moeCall at hrc ⊢
  generalize moeTokenGgufQ8Impl fl s file ptr st.cache st.pins call.args call.env true = res
    at hrc hcase ⊢
  cases hcase with
  | badArgs hargs => simp [MoeResult.refused] at hrc
  | badPhase hphase => simp [MoeResult.refused] at hrc
  | noRoutes hphase hroutes => simp [MoeResult.refused] at hrc
  | badPins hphase hroutes hpins => simp [MoeResult.refused] at hrc
  | @routed c₁ c₂ g₁ ids ws hargs hphase hroutes hpins =>
    have hdone := (h.phase hn hlayer hphase).updatePins hlayer hpins
    obtain ⟨hslots, hbytes⟩ := hdone.same.shape
    have hkept := @moeRouted_keeps _ _ fl s file (fun d => RepInv s (kvlExpertLoad s file) d ∧ d.nSlots = c₀.nSlots ∧
        d.slotBytes = c₀.slotBytes ∧ d.pinnedOf = c₂.pinnedOf) (fun c layer e read hc =>
        have hspec := get_spec hc.1 layer e read
        ⟨hspec.inv, hspec.nSlots.trans hc.2.1, hspec.slotBytes.trans hc.2.2.1,
          (get_pinnedOf c layer e read).trans hc.2.2.2⟩) (fun c layer experts n env hc =>
        have hspec := getmany_spec hc.1 layer experts n env
        ⟨hspec.inv, hspec.nSlots.trans hc.2.1, hspec.slotBytes.trans hc.2.2.1,
          (getmany_pinnedOf c layer experts n env).trans hc.2.2.2⟩) _ g₁ call.args call.env ids ws ⟨hdone.same.inv h.inv, hslots.trans h.nSlots, hbytes.trans h.slotBytes, rfl⟩
    obtain ⟨hinv, hslots', hbytes', hpinned⟩ := hkept
    obtain ⟨rows, hrows⟩ := hdone.bounded
    refine ⟨hinv, hslots', hbytes', ⟨rows, hrows.congr hpinned⟩, ?_, ?_⟩
    · rw [hpinned, hdone.begun]
      exact Nat.lt_succ_iff.symm
    · rw [(moeRouted_fields c₂ g₁ call.args call.env ids ws).1, hdone.globals]
      simp

/-- The calls of a list are those of a run from its `i`-th call on. -/
def InOrder (n : Nat) : Nat → List (MoeCall s F) → Prop
  | _, [] => True
  | i, call :: calls => call.args.layer = generationLayer n i ∧ InOrder n (i + 1) calls

instance InOrder.decidable (n : Nat) :
    ∀ (i : Nat) (calls : List (MoeCall s F)), Decidable (InOrder n i calls)
  | _, [] => inferInstanceAs (Decidable True)
  | i, call :: calls =>
    have := InOrder.decidable n (i + 1) calls
    inferInstanceAs (Decidable (call.args.layer = generationLayer n i ∧ InOrder n (i + 1) calls))

theorem RunInv.run (hn : 0 < n) {calls : List (MoeCall s F)} (h : RunInv s file c₀ ptr n i st)
    (horder : InOrder n i calls) {st' : MoeState}
    (hrun : moeRun fl s file ptr st calls = some st') :
    RunInv s file c₀ ptr n (i + calls.length) st' := by
  induction calls generalizing i st with
  | nil =>
    obtain rfl := Option.some.inj hrun
    exact h
  | cons call calls ih =>
    unfold moeRun at hrun
    dsimp only at hrun
    split at hrun
    · rename_i hrc
      have hnext := ih (h.step hn horder.1 hrc) horder.2 hrun
      rw [List.length_cons, Nat.add_comm calls.length, ← Nat.add_assoc]
      exact hnext
    · simp at hrun

theorem runInv_init {arena : Nat → SlotMemory} {budget : UInt64} {allocOk : Bool}
    (hinit : kvlExpertCacheInit s arena budget allocOk = .ok c₀) :
    RunInv s file c₀ ptr n 0 ⟨c₀, freshLayerpin⟩ := by
  have hnone : c₀.pinnedOf = none := by
    rw [(init_ok hinit).1]
    rfl
  exact ⟨init_inv _ hinit, rfl, rfl, ⟨_, pinsBounded_none hnone⟩, by simp [hnone], rfl⟩

end Generation

section Guarantee
variable {F D : Type*} {fl : MoeFloats F D} {s : ExpertStore} {file : Nat → UInt8}

/-- The cache can form a key for the expert, and its cell holds a record. -/
def HasRecord (s : ExpertStore) (layer : Int) (e : Nat) : Prop :=
  ∃ key r, keyFor s layer e = some key ∧ s.recordAt key = some r

/-- All reads of the batch arrive, and no allocation fails. -/
structure Smooth (env : MoeEnv s F) : Prop where
  sentinel : env.sentinelAlloc = true
  work : env.batch.workOk = true
  avoid : env.batch.avoidOk = true
  read : ∀ i, env.batch.read i = .delivered

/-- What a call with pins does: `before` is the cache it finds, `batch` the result
of its batched call. -/
structure PinnedCall (s : ExpertStore) (before : ExpertCache SlotMemory) (layer : Int)
    (ids : List Nat) (res : MoeResult F) (batch : CallResult SlotMemory) : Prop where
  pinned : ∃ k, res.cache.isPinned k = true
  resident : ∀ e ∈ ids, (kvlExpertCacheResident s batch.cache layer e).rc = 1
  hits : ∀ got ∈ res.gets, got.rc = 0 ∧ got.reads = []
  counted : res.cache.hits = batch.cache.hits + res.gets.length ∧
    res.cache.misses = batch.cache.misses
  complete : res.rc = 0 → res.gets.length = ids.length
  records : (batch.reads.map (·.record)).Perm
    (missingRecords s before layer (ids.map Int.ofNat))
  delivered : ∀ rd ∈ batch.reads, rd.ok = true
  kept : ∀ k slot, res.cache.isPinned k = true → before.slotOf k = some slot →
    batch.cache.slotOf k = some slot ∧ (∀ got ∈ res.gets, got.cache.slotOf k = some slot) ∧
      res.cache.slotOf k = some slot

theorem missingRecords_congr {c c' : ExpertCache SlotMemory} (h : c'.slotOf = c.slotOf)
    (layer : Int) (ids : List Int) : missingRecords s c' layer ids = missingRecords s c layer ids := by
  have hmissing : missing s c' layer = missing s c layer := by
    funext e
    unfold missing
    rw [h]
  unfold missingRecords
  rw [hmissing]

theorem moeRouted_pinned {c : ExpertCache SlotMemory} {g : LayerpinState} {a : MoeArgs F}
    {env : MoeEnv s F} {ids : List Nat} {ws : List F}
    (hinv : RepInv s (kvlExpertLoad s file) c)
    (hbatch : PinnedBatch s c a.layer (ids.map Int.ofNat)
      (kvlExpertCacheGetmany s (kvlExpertLoad s file) c a.layer (some (ids.map Int.ofNat))
        a.cfg.topK env.batch))
    (hpinned : ∃ k, c.isPinned k = true) (hws : ws.length = ids.length)
    (hrec : ∀ e ∈ ids, HasRecord s a.layer e) :
    PinnedCall s c a.layer ids (moeRouted fl s file c g a env ids ws)
      (kvlExpertCacheGetmany s (kvlExpertLoad s file) c a.layer (some (ids.map Int.ofNat))
        a.cfg.topK env.batch) := by
  have hinv' := (getmany_spec hinv a.layer (some (ids.map Int.ofNat)) a.cfg.topK env.batch).inv
  have hpins := @getmany_pinnedOf _ s (kvlExpertLoad s file) c a.layer (some (ids.map Int.ofNat))
      a.cfg.topK env.batch
  have hsome : ∀ e ∈ ids, ∃ key, keyFor s a.layer e = some key ∧
      ((kvlExpertCacheGetmany s (kvlExpertLoad s file) c a.layer (some (ids.map Int.ofNat))
        a.cfg.topK env.batch).cache.slotOf key).isSome := by
    intro e he
    obtain ⟨key, r, hkey, _⟩ := hrec e he
    exact ⟨key, hkey, hbatch.resident e (List.mem_map_of_mem he) key hkey⟩
  have hpinnedOf : (moeRouted fl s file c g a env ids ws).cache.pinnedOf = c.pinnedOf :=
    moeRouted_keeps (P := fun d => d.pinnedOf = c.pinnedOf)
      (fun d layer e read h => (get_pinnedOf d layer e read).trans h)
      (fun d layer experts n env h => (getmany_pinnedOf d layer experts n env).trans h) rfl
  have hisPinned : ∀ k, (moeRouted fl s file c g a env ids ws).cache.isPinned k = c.isPinned k := by
    intro k
    simp [isPinned, hpinnedOf]
  obtain ⟨hall, hlen⟩ := @moeExperts_hits _ _ fl _ _ a env 0 (ids.zip ws) ⟨_, env.scratch, fun _ => fl.zero, []⟩ hinv' (by
      intro r hr
      exact hsome r.1 (List.of_mem_zip hr).1)
  -- the gets of the call, and the cache after them
  have hgets : (∀ got ∈ (moeRouted fl s file c g a env ids ws).gets, got.rc = 0 ∧ got.reads = [] ∧
      got.cache.slotOf = (kvlExpertCacheGetmany s (kvlExpertLoad s file) c a.layer
        (some (ids.map Int.ofNat)) a.cfg.topK env.batch).cache.slotOf) ∧
      (moeRouted fl s file c g a env ids ws).cache.slotOf =
        (kvlExpertCacheGetmany s (kvlExpertLoad s file) c a.layer (some (ids.map Int.ofNat))
          a.cfg.topK env.batch).cache.slotOf ∧
      (moeRouted fl s file c g a env ids ws).cache.hits =
        (kvlExpertCacheGetmany s (kvlExpertLoad s file) c a.layer (some (ids.map Int.ofNat))
          a.cfg.topK env.batch).cache.hits + (moeRouted fl s file c g a env ids ws).gets.length ∧
      (moeRouted fl s file c g a env ids ws).cache.misses =
        (kvlExpertCacheGetmany s (kvlExpertLoad s file) c a.layer (some (ids.map Int.ofNat))
          a.cfg.topK env.batch).cache.misses ∧
      ((moeRouted fl s file c g a env ids ws).rc = 0 →
        (moeRouted fl s file c g a env ids ws).gets.length = ids.length) := by
    obtain ⟨more, hmore, hgot⟩ := hall.gets
    have hhits := hall.hits
    rw [List.nil_append] at hmore
    rw [List.length_nil, Nat.add_zero] at hhits
    unfold moeRouted
    dsimp only
    split
    · exact ⟨by simp, rfl, rfl, rfl, by simp⟩
    split
    · exact ⟨fun got h => hgot got (hmore ▸ h), hall.slotOf, hhits, hall.misses, by simp⟩
    rename_i hend
    split
    · exact ⟨fun got h => hgot got (hmore ▸ h), hall.slotOf, hhits, hall.misses, by simp⟩
    · refine ⟨fun got h => hgot got (hmore ▸ h), hall.slotOf, hhits, hall.misses, fun _ => ?_⟩
      rw [hlen (by simpa using hend)]
      simp [hws]
  obtain ⟨hgot, hslotOf, hhits, hmisses, hcomplete⟩ := hgets
  refine ⟨?_, ?_, fun got h => ⟨(hgot got h).1, (hgot got h).2.1⟩, ⟨hhits, hmisses⟩, hcomplete,
    hbatch.records, hbatch.delivered, ?_⟩
  · obtain ⟨k, hk⟩ := hpinned
    exact ⟨k, (hisPinned k).trans hk⟩
  · intro e he
    obtain ⟨key, hkey, hin⟩ := hsome e he
    exact resident_rc hinv' hkey hin
  · intro k slot hk hslot
    rw [hisPinned] at hk
    have hkept := hbatch.kept k slot hk hslot
    refine ⟨hkept, fun got h => ?_, ?_⟩
    · rw [(hgot got h).2.2]
      exact hkept
    · rw [hslotOf]
      exact hkept

variable {c₀ : ExpertCache SlotMemory} {ptr n i : Nat} {st : MoeState}

/-- A call during the prompt neither finds nor leaves a pin table. -/
theorem RunInv.prefill (h : RunInv s file c₀ ptr n i st) (hn : 0 < n) {call : MoeCall s F}
    (hlayer : call.args.layer = generationLayer n i) (hi : i < 26 * n) :
    st.cache.pinnedOf = none ∧ (moeCall fl s file ptr st call).cache.pinnedOf = none := by
  have hnone : st.cache.pinnedOf = none := by
    rw [← Option.not_isSome_iff_eq_none, h.begun]
    omega
  refine ⟨hnone, ?_⟩
  have hidle : enterPhase s ptr st.cache st.pins call.args call.env true =
      (true, st.cache, { st.pins.follow ptr with lastLayer := call.args.layer }) := by
    have hcase := phase_cases s st.pins ptr st.cache call.args.layer call.env.sentinelAlloc
    have hno : ¬ decodeBegins (st.pins.follow ptr) st.cache call.args.layer = true := by
      rw [hlayer, h.decodeBegins_iff hn]
      omega
    unfold enterPhase
    rw [if_pos rfl]
    generalize layerpinPhaseUpdate s st.pins ptr st.cache call.args.layer call.env.sentinelAlloc =
      res at hcase ⊢
    cases hcase with
    | idle _ => rfl
    | begun hyes _ _ => exact absurd hyes hno
    | refused hyes _ _ => exact absurd hyes hno
  have hcase := moe_cases fl s file ptr st.cache st.pins call.args call.env true
  unfold moeCall
  generalize moeTokenGgufQ8Impl fl s file ptr st.cache st.pins call.args call.env true = res
    at hcase ⊢
  cases hcase with
  | badArgs hargs => exact hnone
  | badPhase hphase => simp [hidle] at hphase
  | noRoutes hphase hroutes =>
    obtain ⟨rfl, _⟩ := Prod.mk.inj (Prod.mk.inj (hidle.symm.trans hphase)).2
    exact hnone
  | badPins hphase hroutes hpins =>
    obtain ⟨rfl, _⟩ := Prod.mk.inj (Prod.mk.inj (hidle.symm.trans hphase)).2
    simp [updatePins, hnone] at hpins
  | @routed c₁ c₂ g₁ ids ws hargs hphase hroutes hpins =>
    obtain ⟨rfl, _⟩ := Prod.mk.inj (Prod.mk.inj (hidle.symm.trans hphase)).2
    obtain rfl : st.cache = c₂ := by simpa [updatePins, hnone] using hpins
    exact (moeRouted_keeps (P := fun d => d.pinnedOf = st.cache.pinnedOf)
      (fun d layer e read h => (get_pinnedOf d layer e read).trans h)
      (fun d layer experts n env h => (getmany_pinnedOf d layer experts n env).trans h) rfl).trans
      hnone

/-- Every record the cache can find fits a slot. -/
theorem hasRecord_loadable (hidx : IndexOk s) {arena : Nat → SlotMemory} {budget : UInt64}
    {allocOk : Bool} (hinit : kvlExpertCacheInit s arena budget allocOk = .ok c₀) {layer : Int}
    {e : Nat} (h : HasRecord s layer e) :
    ∃ key r, keyFor s layer e = some key ∧ Loadable s c₀.slotBytes key r := by
  obtain ⟨key, r, hkey, hrec⟩ := h
  obtain ⟨heq, _, _, halign, _⟩ := init_ok hinit
  have hmax := readBytes_le_max (hidx.recordAt_lt hrec)
  have hround := le_alignUpSize (maxReadBytes_lt s) halign
  refine ⟨key, r, hkey, ⟨layer, e, hkey⟩, hrec, ?_⟩
  rw [heq]
  exact hmax.trans hround

theorem PhaseDone.room {c c₂ : ExpertCache SlotMemory} {g₁ : LayerpinState}
    (h : PhaseDone s c c₂ g₁ ptr n i) (hlayers : s.nLayers = 27) :
    ∃ P : Finset Nat, (∀ k, c₂.isPinned k = true → k ∈ P) ∧ P.card ≤ 26 * layerPinCount := by
  obtain ⟨rows, hrows⟩ := h.bounded
  obtain ⟨P, hP, hcard⟩ := hrows.pinned
  rw [hlayers] at hcard
  exact ⟨P, hP, hcard⟩

theorem keyFor_nodup {layer : Int} {ids : List Nat} (hnd : ids.Nodup)
    (hkeys : ∀ e ∈ ids, (keyFor s layer e).isSome) :
    ((ids.map Int.ofNat).map (keyFor s layer)).Nodup := by
  rw [List.map_map]
  apply hnd.map_on
  intro e he e' _ heq
  obtain ⟨k, hk⟩ := Option.isSome_iff_exists.mp (hkeys e he)
  have hk' : keyFor s layer e' = some k := heq.symm.trans hk
  exact Int.ofNat.inj (keyFor_inj hk hk')

/-- The sentinel call for the dense layer goes through. -/
theorem sentinel_accepted {c : ExpertCache SlotMemory} (hlayers : s.nLayers = 27) {layer : Int}
    {e : Nat} (hrec : HasRecord s layer e) :
    (kvlExpertCachePinLayer s c 0 none 0 true).rc = 0 := by
  have hL : cInt s.nLayers = 27 := by
    rw [hlayers]
    rfl
  obtain ⟨key, r, hkey, _⟩ := hrec
  obtain ⟨⟨_, _, _, hE⟩, _⟩ := keyFor_inRange hkey
  refine pin_accepted ⟨le_rfl, ?_⟩ ⟨le_rfl, ?_⟩ (by simp) (by simp [pinIds]) (.inr rfl)
  · rw [hL]
    decide
  · exact (Int.natCast_nonneg e).trans hE.le

theorem RunInv.decode (h : RunInv s file c₀ ptr n i st) (hn : 0 < n) (hi : 26 * n ≤ i)
    (hidx : IndexOk s) (hlayers : s.nLayers = 27) (hdtype : s.hdr.dtype = dtypeGgufQ8)
    {arena : Nat → SlotMemory} {budget : UInt64} {allocOk : Bool}
    (hinit : kvlExpertCacheInit s arena budget allocOk = .ok c₀) {call : MoeCall s F}
    (hlayer : call.args.layer = generationLayer n i) (hI : 0 < call.args.expertIntermediateSize)
    {ids : List Nat} {ws : List F} (hroutes : moeRoutes fl s call.args call.env = some (ids, ws))
    (hrec : ∀ e ∈ ids, HasRecord s call.args.layer e) (hsmooth : Smooth call.env)
    (hslots : 26 * layerPinCount + call.args.cfg.topK.toNat ≤ c₀.nSlots) :
    ∃ batch, (moeCall fl s file ptr st call).getmany = some batch ∧
      PinnedCall s st.cache call.args.layer ids (moeCall fl s file ptr st call) batch := by
  obtain ⟨htop, hnd, hlen, hws⟩ := kvlRouterNoauxTc_ok hroutes
  have hL : cInt s.nLayers = 27 := by
    rw [hlayers]
    rfl
  have hkeys : ∀ e ∈ ids, (keyFor s call.args.layer e).isSome := by
    intro e he
    obtain ⟨key, r, hkey, _⟩ := hrec e he
    rw [hkey]
    rfl
  obtain ⟨e₀, he₀⟩ := List.exists_mem_of_length_pos (show 0 < ids.length by omega)
  have hfst : (ids.zip ws).map Prod.fst = ids := List.map_fst_zip hws.ge
  -- neither the sentinel nor the pins of the layer are refused
  have haccept : ∀ c₁ : ExpertCache SlotMemory, c₁.pinnedOf.isSome → c₁.nSlots = c₀.nSlots →
      (updatePins fl s c₁ call.args call.env (ids.zip ws) true).1 = true ∧
        ∃ k, (updatePins fl s c₁ call.args call.env (ids.zip ws) true).2.isPinned k = true := by
    intro c₁ hsome hsame
    have hacc := @pinRoutes_accepted _ _ fl s c₁ call.args.layer call.args.cfg.topK (ids.zip ws) (true && layerpinHysteresisEnabled call.env.hysteresis) call.env.pinAlloc hsome htop (by simp [hws, hlen]) (by rwa [hfst]) (by rwa [hfst]) (by rw [hL]; decide) (by
        rw [hL, hsame]
        unfold layerPinCount at hslots ⊢
        omega)
    unfold updatePins
    rw [if_pos (by simp [hsome])]
    exact hacc
  have hcase := moe_cases fl s file ptr st.cache st.pins call.args call.env true
  unfold moeCall
  generalize moeTokenGgufQ8Impl fl s file ptr st.cache st.pins call.args call.env true = res
    at hcase ⊢
  cases hcase with
  | badArgs hargs =>
    rcases hargs with hargs | hargs
    · exact absurd hdtype hargs
    · omega
  | @badPhase c₁ g₁ hphase =>
    have hpcase := phase_cases s st.pins ptr st.cache call.args.layer call.env.sentinelAlloc
    unfold enterPhase at hphase
    rw [if_pos rfl] at hphase
    rw [hphase] at hpcase
    cases hpcase with
    | refused hyes hr hrc =>
      have hok := sentinel_accepted (c := st.cache) hlayers (hrec e₀ he₀)
      rw [hsmooth.sentinel] at hr
      rw [hr] at hok
      exact absurd hok hrc
  | noRoutes hphase hnone => simp [hroutes] at hnone
  | @badPins c₁ c₂ g₁ ids' ws' hphase hroutes' hpins =>
    obtain ⟨rfl, rfl⟩ := Prod.mk.inj (Option.some.inj (hroutes.symm.trans hroutes'))
    have hdone := h.phase hn hlayer hphase
    have hok := (haccept c₁ (hdone.begun.mpr hi) (hdone.same.shape.1.trans h.nSlots)).1
    rw [hpins] at hok
    simp at hok
  | @routed c₁ c₂ g₁ ids' ws' hargs hphase hroutes' hpins =>
    obtain ⟨rfl, rfl⟩ := Prod.mk.inj (Option.some.inj (hroutes.symm.trans hroutes'))
    have hdone := h.phase hn hlayer hphase
    have hpinned := (haccept c₁ (hdone.begun.mpr hi) (hdone.same.shape.1.trans h.nSlots)).2
    have hdone' := hdone.updatePins hlayer hpins
    rw [hpins] at hpinned
    obtain ⟨P, hP, hcard⟩ := hdone'.room hlayers
    have hinv := hdone'.same.inv h.inv
    obtain ⟨hsameSlots, hsameBytes⟩ := hdone'.same.shape
    have hbatch := @getmany_pinned _ _ _ _ hinv (hdone'.begun.mpr hi) call.args.layer call.args.cfg.topK (ids.map Int.ofNat) call.env.batch htop (by simp [hlen]) hsmooth.work hsmooth.avoid hsmooth.read (by
        intro e he
        obtain ⟨e', he', rfl⟩ := List.mem_map.mp he
        rw [hsameBytes, h.slotBytes]
        exact hasRecord_loadable hidx hinit (hrec e' he')) (keyFor_nodup hnd hkeys) _ hP (by
        rw [List.length_map, hsameSlots, h.nSlots, hlen]
        omega)
    refine ⟨_, (moeRouted_fields c₂ g₁ call.args call.env ids ws).2, ?_⟩
    have hres := @moeRouted_pinned _ _ fl _ _ _ g₁ _ _ _ ws hinv hbatch hpinned hws hrec
    refine ⟨hres.pinned, hres.resident, hres.hits, hres.counted, hres.complete, ?_, hres.delivered,
      ?_⟩
    · rw [← missingRecords_congr hdone'.same.slotOf]
      exact hres.records
    · intro k slot hk hslot
      exact hres.kept k slot hk (by rw [hdone'.same.slotOf]; exact hslot)

theorem InOrder.snoc {calls : List (MoeCall s F)} {call : MoeCall s F}
    (h : InOrder n i (calls ++ [call])) :
    InOrder n i calls ∧ call.args.layer = generationLayer n (i + calls.length) := by
  induction calls generalizing i with
  | nil => exact ⟨trivial, h.1⟩
  | cons c calls ih =>
    obtain ⟨hhead, htail⟩ := h
    obtain ⟨hcalls, hlast⟩ := ih htail
    refine ⟨⟨hhead, hcalls⟩, ?_⟩
    rw [hlast, List.length_cons]
    congr 1
    omega

/-- On a cache with room for two pins of each routed layer and one batch, a
generation run pins nothing during the prompt, starts to pin at layer 1 of the
first decoded token, and from then on every batch is complete: its experts are
resident afterwards, each missing one was read once, the gets that follow are
hits, and no pinned key has been evicted. -/
theorem layerPin_guarantee {index : Bytes} {indexOk : Bool} {s₀ : ExpertStore}
    (hread : readIndex index indexOk = some s₀) {fd : Int} {directIo : Bool}
    (hlayers : s₀.nLayers = 27) (hdtype : s₀.hdr.dtype = dtypeGgufQ8)
    {arena : Nat → SlotMemory} {budget : UInt64} {allocOk : Bool}
    (hinit : kvlExpertCacheInit (s₀.opened fd directIo) arena budget allocOk = .ok c₀)
    (hn : 0 < n) {calls : List (MoeCall (s₀.opened fd directIo) F)}
    {call : MoeCall (s₀.opened fd directIo) F} (horder : InOrder n 0 (calls ++ [call]))
    (hrun : moeRun fl (s₀.opened fd directIo) file ptr ⟨c₀, freshLayerpin⟩ calls = some st) :
    (calls.length < 26 * n → st.cache.pinnedOf = none ∧
      (moeCall fl (s₀.opened fd directIo) file ptr st call).cache.pinnedOf = none) ∧
    (calls.length = 26 * n → call.args.layer = 1 ∧ st.cache.pinnedOf = none) ∧
    (26 * n ≤ calls.length → 0 < call.args.expertIntermediateSize → ∀ ids ws,
      moeRoutes fl (s₀.opened fd directIo) call.args call.env = some (ids, ws) →
      (∀ e ∈ ids, HasRecord (s₀.opened fd directIo) call.args.layer e) → Smooth call.env →
      layerPinCount * (s₀.nLayers - 1) + call.args.cfg.topK.toNat ≤ c₀.nSlots →
      ∃ batch, (moeCall fl (s₀.opened fd directIo) file ptr st call).getmany = some batch ∧
        PinnedCall (s₀.opened fd directIo) st.cache call.args.layer ids
          (moeCall fl (s₀.opened fd directIo) file ptr st call) batch) := by
  obtain ⟨hcalls, hlayer⟩ := horder.snoc
  have hinv := (@runInv_init _ file _ ptr n _ _ _ hinit).run hn hcalls hrun
  rw [Nat.zero_add] at hinv hlayer
  refine ⟨fun hi => hinv.prefill hn hlayer hi, ?_, ?_⟩
  · intro hi
    refine ⟨?_, ?_⟩
    · rw [hlayer, hi]
      simp [generationLayer]
    · rw [← Option.not_isSome_iff_eq_none, hinv.begun]
      omega
  · intro hi hI ids ws hroutes hrec hsmooth hslots
    have hidx := (readIndex_ok hread).opened fd directIo
    refine hinv.decode hn hi hidx hlayers hdtype hinit hlayer hI hroutes hrec hsmooth ?_
    rw [hlayers] at hslots
    omega

end Guarantee

section Example

/-- One expert in each of the layers 1 to 26. -/
def pinHeader : ExpertIndexHeader := ⟨expertMagic, 1, 4096, 27, 1, 26, dtypeGgufQ8, 48, 12288⟩

def pinRecords : List ExpertRecord := (List.range 26).map fun i =>
  ⟨UInt32.ofNat (i + 1), 0, 0, 12288, 3264, 0, 1088, 4096, 1088, 8192, 1088⟩

def pinSources : List GgufQ8Source := List.replicate 26
  ⟨0, 4096, 0, 4096, 4096, 4096, 8192, 4096, 8192⟩

def pinIndex : Bytes :=
  expertMagic ++ toLE 4 1 ++ toLE 4 4096 ++ toLE 4 27 ++ toLE 4 1 ++ toLE 4 26 ++ toLE 4 5 ++
    toLE 8 48 ++ toLE 8 12288 ++ pinRecords.flatMap encodeRecord ++ pinSources.flatMap encodeSource

def pinStore : ExpertStore where
  fd := -1
  directIo := false
  hdr := pinHeader
  records := pinRecords
  ggufQ8Sources := some pinSources
  recordOf := (enterRecords pinHeader pinRecords 0 fun _ => -1).getD fun _ => -1

theorem readIndex_pin : readIndex pinIndex true = some pinStore := by
  have htable : (enterRecords pinHeader pinRecords 0 fun _ => -1).isSome = true := by
    decide +kernel
  refine @readIndex_eq_some _ (pinSources.flatMap encodeSource) pinHeader _ _ _ (by decide +kernel)
    (by decide +kernel) (by decide) (by decide) (by decide) (by decide +kernel)
    (by decide +kernel) ?_
  obtain ⟨recordOf, h⟩ := Option.isSome_iff_exists.mp htable
  have hstore : pinStore.recordOf = recordOf := by simp [pinStore, h]
  exact h.trans (congrArg some hstore.symm)

abbrev openPin : ExpertStore := pinStore.opened 3 false

def pinCall (layer : Int) : MoeCall openPin Int where
  args := ⟨layer, ⟨32, 1, 1, 1, 1, false, 1⟩, fun i => i, fun i => i, fun _ => 0, 32, none⟩
  env := smoothEnv openPin (some [49])

/-- A prompt of one token. -/
def pinPrompt : List (MoeCall openPin Int) := (List.range 26).map fun i => pinCall (i + 1 : Nat)

def pinCache : ExpertCache SlotMemory :=
  emptyCache (fun _ _ => 7) 651264 12288 53

theorem pin_init :
    kvlExpertCacheInit openPin (fun _ _ => 7) 651264 true = .ok pinCache := by
  have hmax : maxReadBytes openPin = 12288 := by decide +kernel
  have halign : alignUpSize 12288 expertAlign = 12288 := by decide +kernel
  have hfd : 0 ≤ openPin.fd := by decide
  have hslots : cInt (651264 / 12288) = 53 := by decide
  simp [kvlExpertCacheInit, hfd, hmax, halign, hslots, pinCache]

theorem pin_run : (moeRun intMoeFloats openPin countingFile 0 ⟨pinCache, freshLayerpin⟩
    pinPrompt).isSome = true := by decide +kernel

/-- The first decoded token's call of layer 1, after a prompt of one token. -/
theorem layerPin_guarantee_firstDecoded : ∃ st batch,
    moeRun intMoeFloats openPin countingFile 0 ⟨pinCache, freshLayerpin⟩ pinPrompt = some st ∧
      (moeCall intMoeFloats openPin countingFile 0 st (pinCall 1)).getmany = some batch ∧
      PinnedCall openPin st.cache 1 [0] (moeCall intMoeFloats openPin countingFile 0 st (pinCall 1))
        batch := by
  obtain ⟨st, hst⟩ := Option.isSome_iff_exists.mp pin_run
  have hids : (moeRoutes intMoeFloats openPin (pinCall 1).args (pinCall 1).env).map Prod.fst =
      some [0] := by decide +kernel
  obtain ⟨⟨ids, ws⟩, hroutes, rfl⟩ := Option.map_eq_some_iff.mp hids
  have hrecord : ∀ e ∈ [0], HasRecord openPin 1 e := by
    intro e he
    obtain rfl := List.mem_singleton.mp he
    exact ⟨1, 0, by decide +kernel, by decide +kernel⟩
  obtain ⟨batch, hbatch, hpinned⟩ := (@layerPin_guarantee _ _ _ _ _ _ 1 _ _ _ _ readIndex_pin _ _
      (by decide) (by decide) _ _ _ pin_init (by decide) _ (pinCall 1) (by decide +kernel) hst).2.2 (by decide)
    (by decide) _ ws hroutes hrecord ⟨rfl, rfl, rfl, fun _ => rfl⟩ (by decide)
  exact ⟨st, batch, hst, hbatch, hpinned⟩

end Example

end Kvl

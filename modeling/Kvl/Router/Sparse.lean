import Kvl.Cache.Model
import Kvl.Router.Model
import Kvl.Store.Open

/-!
# Routing over a sparse store

The store binds a mask that lists its missing experts, and the router reads
that mask again from the variable the store left. The other entry point routes
without a mask and gives up when one is set.
-/

namespace Kvl

set_option autoImplicit false

section Dynskip

/-- The globals of the dynamic-skip runtime that decide which router runs. -/
structure DynskipState where
  runtimeState : Int
  policyEnabled : Bool

def freshDynskip : DynskipState := ⟨0, false⟩

/-- `start` is the rest of `runtime_init`, from the loading of the policy on. -/
def runtimeInit (start : Bytes → DynskipState → Int × DynskipState) (policy mask : Option Bytes)
    (g : DynskipState) : Int × DynskipState :=
  if g.runtimeState ≠ 0 then (if g.runtimeState > 0 then 0 else -1, g)
  else
    let g := { g with runtimeState := -1 }
    match policy with
    | some (c :: path) =>
      match mask with
      | some (_ :: _) => (-1, g)
      | _ => start (c :: path) g
    | _ => (0, { g with runtimeState := 1 })

/-- `auto` is the call of `kvl_moe_token_auto`, `skip` the path of an active
policy; `none` is the return code -1. -/
def kvlMoeTokenQ8DynskipAuto {α : Type*} (start : Bytes → DynskipState → Int × DynskipState)
    (auto : Option α) (skip : DynskipState → Option α × DynskipState) (policy mask : Option Bytes)
    (g : DynskipState) : Option α × DynskipState :=
  let (rc, g) := runtimeInit start policy mask g
  if rc ≠ 0 then (none, g)
  else if !g.policyEnabled then (auto, g)
  else skip g

theorem runtimeInit_masked (start : Bytes → DynskipState → Int × DynskipState)
    {policy mask : Bytes} (hpolicy : policy ≠ []) (hmask : mask ≠ []) {g : DynskipState}
    (hg : g.runtimeState = 0 ∨ g.runtimeState = -1) :
    runtimeInit start (some policy) (some mask) g = (-1, { g with runtimeState := -1 }) := by
  obtain ⟨c, policy, rfl⟩ := List.exists_cons_of_ne_nil hpolicy
  obtain ⟨d, mask, rfl⟩ := List.exists_cons_of_ne_nil hmask
  cases g with
  | mk state enabled =>
    rcases hg with hg | hg
    · obtain rfl : state = 0 := hg
      rfl
    · obtain rfl : state = -1 := hg
      rfl

/-- One call of the entry point after another, with the results in order. -/
def dynskipRun {α : Type*} (start : Bytes → DynskipState → Int × DynskipState)
    (policy mask : Option Bytes) :
    List (Option α × (DynskipState → Option α × DynskipState)) → DynskipState → List (Option α)
  | [], _ => []
  | (auto, skip) :: calls, g =>
    let r := kvlMoeTokenQ8DynskipAuto start auto skip policy mask g
    r.1 :: dynskipRun start policy mask calls r.2

theorem dynskipRun_refused {α : Type*} (start : Bytes → DynskipState → Int × DynskipState)
    {policy mask : Bytes} (hpolicy : policy ≠ []) (hmask : mask ≠ [])
    (calls : List (Option α × (DynskipState → Option α × DynskipState))) {g : DynskipState}
    (hg : g.runtimeState = 0 ∨ g.runtimeState = -1) :
    ∀ r ∈ dynskipRun start (some policy) (some mask) calls g, r = none := by
  induction calls generalizing g with
  | nil => simp [dynskipRun]
  | cons call calls ih =>
    have hstep : kvlMoeTokenQ8DynskipAuto start call.1 call.2 (some policy) (some mask) g =
        (none, { g with runtimeState := -1 }) := by
      simp [kvlMoeTokenQ8DynskipAuto, runtimeInit_masked start hpolicy hmask hg]
    intro r hr
    simp only [dynskipRun, hstep] at hr
    rcases List.mem_cons.mp hr with rfl | hr
    · rfl
    · exact ih (.inr rfl) r hr

end Dynskip

section Sparse

/-- One call of the router, with everything it is given. -/
structure RouterCall (F : Type*) where
  layer : Int
  cfg : RouterConfig F
  x : Nat → F
  w : Nat → F
  bias : Nat → F
  allocOk : Bool

variable {F D : Type*} (fl : RouterFloats F D)

def route (files : Bytes → Option Bytes) (env : Option Bytes) (g : MoeMask)
    (call : RouterCall F) : Option (List Nat × List F) × MoeMask :=
  q8RouterForLayer fl call.cfg files env g call.layer call.x call.w call.bias call.allocOk

/-- The globals after some router calls of a process that made none before. -/
def routeRun (files : Bytes → Option Bytes) (env : Option Bytes) (calls : List (RouterCall F)) :
    MoeMask :=
  calls.foldl (fun g call => (route fl files env g call).2) freshMoeMask

/-- The globals hold either nothing yet, or the outcome of reading the mask. -/
def MaskReady (files : Bytes → Option Bytes) (env : Option Bytes) (g : MoeMask) : Prop :=
  g = freshMoeMask ∨ ∃ rc, moeMaskLoad files env freshMoeMask = (rc, g)

theorem moeMaskLoad_state_ne {files : Bytes → Option Bytes} {env : Option Bytes} {rc : Int}
    {g : MoeMask} (h : moeMaskLoad files env freshMoeMask = (rc, g)) : g.state ≠ 0 ∧
      rc = if g.state < 0 then -1 else g.state - 1 := by
  unfold moeMaskLoad at h
  rw [if_neg (by decide)] at h
  split at h
  · split at h
    · obtain ⟨rfl, rfl⟩ := Prod.mk.inj h
      simp
    · dsimp only at h
      split at h
      · obtain ⟨rfl, rfl⟩ := Prod.mk.inj h
        simp
      · obtain ⟨rfl, rfl⟩ := Prod.mk.inj h
        simp
  · obtain ⟨rfl, rfl⟩ := Prod.mk.inj h
    simp

/-- The mask is read once: later calls find the outcome of the first. -/
theorem MaskReady.load {files : Bytes → Option Bytes} {env : Option Bytes} {g : MoeMask}
    (h : MaskReady files env g) :
    moeMaskLoad files env g = moeMaskLoad files env freshMoeMask := by
  rcases h with rfl | ⟨rc, hrc⟩
  · rfl
  · obtain ⟨hne, hval⟩ := moeMaskLoad_state_ne hrc
    have hlater : moeMaskLoad files env g = (if g.state < 0 then -1 else g.state - 1, g) :=
      if_pos hne
    rw [hlater, hrc, hval]

theorem MaskReady.route {files : Bytes → Option Bytes} {env : Option Bytes} {g : MoeMask}
    (h : MaskReady files env g) (call : RouterCall F) :
    MaskReady files env (route fl files env g call).2 := by
  right
  refine ⟨(moeMaskLoad files env freshMoeMask).1, ?_⟩
  have hg : (Kvl.route fl files env g call).2 = (moeMaskLoad files env freshMoeMask).2 := by
    rw [← h.load]
    unfold Kvl.route q8RouterForLayer
    dsimp only
    split
    · rfl
    · split <;> rfl
  rw [hg]

theorem routeRun_ready (files : Bytes → Option Bytes) (env : Option Bytes)
    (calls : List (RouterCall F)) : MaskReady files env (routeRun fl files env calls) := by
  induction calls using List.reverseRecOn with
  | nil => exact .inl rfl
  | append_singleton calls call ih =>
    simp only [routeRun, List.foldl_append, List.foldl_cons, List.foldl_nil]
    exact MaskReady.route fl ih call

theorem kvlExpertStoreOpen_ok {o : OpenEnv} {idxPath : Bytes} {preferDirectIo : Bool}
    {env env' : Option Bytes} {s : ExpertStore}
    (h : kvlExpertStoreOpen o idxPath preferDirectIo env = ⟨0, s, env'⟩) :
    ∃ s₀, s = openDataFile s₀ o preferDirectIo ∧
      bindSparseQ8Mask s₀ o idxPath env = some env' := by
  unfold kvlExpertStoreOpen at h
  split at h
  · simp at h
  · rename_i s₀ _
    split at h
    · simp at h
    · rename_i e hbind
      dsimp only at h
      split at h
      · simp at h
      · simp only [OpenResult.mk.injEq, true_and] at h
        obtain ⟨rfl, rfl⟩ := h
        exact ⟨s₀, rfl, hbind⟩

theorem openDataFile_tables (s : ExpertStore) (o : OpenEnv) (preferDirectIo : Bool) :
    (openDataFile s o preferDirectIo).hdr = s.hdr ∧
      (openDataFile s o preferDirectIo).recordOf = s.recordOf := by
  unfold openDataFile
  dsimp only
  split
  · exact ⟨rfl, rfl⟩
  · split <;> exact ⟨rfl, rfl⟩

theorem absentPairs_congr {s s' : ExpertStore} (hhdr : s.hdr = s'.hdr)
    (hrec : s.recordOf = s'.recordOf) : absentPairs s = absentPairs s' := by
  cases s
  cases s'
  subst hhdr hrec
  rfl

/-- An opened sparse store leaves a variable whose file lists its missing experts. -/
theorem kvlExpertStoreOpen_denotes {o : OpenEnv} {idxPath : Bytes} {preferDirectIo : Bool}
    {env env' : Option Bytes} {s : ExpertStore}
    (h : kvlExpertStoreOpen o idxPath preferDirectIo env = ⟨0, s, env'⟩)
    (hdtype : s.hdr.dtype = dtypeQ8Row) (hsparse : absentPairs s ≠ ∅) :
    ∃ path, env' = some path ∧ path ≠ [] ∧
      FileDenotes s.hdr o.files path (absentPairs s) := by
  obtain ⟨s₀, rfl, hbind⟩ := kvlExpertStoreOpen_ok h
  obtain ⟨hhdr, hrec⟩ := openDataFile_tables s₀ o preferDirectIo
  rw [absentPairs_congr hhdr hrec] at hsparse ⊢
  rw [hhdr] at hdtype ⊢
  exact bindSparseQ8Mask_denotes hdtype hsparse hbind

/-- An expert the router may select from: present, and addressable by the cache. -/
def Fetchable (s : ExpertStore) (layer expert : Int) : Prop :=
  ∃ key r, keyFor s layer expert = some key ∧ kvlExpertFind s layer expert = some r

theorem fetchable_of_notMem {s : ExpertStore} (hL : s.nLayers ≤ 256) (hE : s.nExperts ≤ 256)
    {layer expert : Nat} (hfirst : firstMoeLayer s ≤ layer) (hl : layer < s.nLayers)
    (he : expert < s.nExperts) (hpresent : (layer, expert) ∉ absentPairs s) :
    Fetchable s layer expert := by
  have hids : idsInRange s layer expert := by
    unfold idsInRange
    rw [cInt_of_lt (by omega), cInt_of_lt (by omega)]
    omega
  have hkey := flatKey_lt hids
  have hmap : s.mapN ≤ 256 * 256 := Nat.mul_le_mul hL hE
  have hcell : s.recordAt (flatKey s layer expert) ≠ none := by
    intro hnone
    exact hpresent ⟨hfirst, hl, he, hnone⟩
  obtain ⟨r, hr⟩ := Option.ne_none_iff_exists'.mp hcell
  refine ⟨flatKey s layer expert, r, ?_, ?_⟩
  · rw [keyFor, if_pos hids, if_neg (by omega)]
  · rw [kvlExpertFind, if_pos hids, hr]

/-- On an opened sparse store the router only selects experts that have a
record, and the entry point without a mask refuses to run under a policy. -/
theorem sparse_store_routes_present {o : OpenEnv} {idxPath : Bytes} {preferDirectIo : Bool}
    {env env' : Option Bytes} {s : ExpertStore}
    (hopen : kvlExpertStoreOpen o idxPath preferDirectIo env = ⟨0, s, env'⟩)
    (hdtype : s.hdr.dtype = dtypeQ8Row) (hsparse : absentPairs s ≠ ∅)
    (hL : s.nLayers ≤ 256) (hE : s.nExperts ≤ 256) :
    (∀ (calls : List (RouterCall F)) (call : RouterCall F) (ids : List Nat) (ws : List F),
      (firstMoeLayer s : Int) ≤ call.layer → call.layer < s.nLayers →
      call.cfg.nExperts = s.nExperts →
      (route fl o.files env' (routeRun fl o.files env' calls) call).1 = some (ids, ws) →
      ids.Nodup ∧ ids.length = call.cfg.topK.toNat ∧
        ∀ e ∈ ids, e < s.nExperts ∧ Fetchable s call.layer e) ∧
    ∀ (α : Type) (start : Bytes → DynskipState → Int × DynskipState) (policy : Bytes)
      (calls : List (Option α × (DynskipState → Option α × DynskipState))), policy ≠ [] →
      ∀ r ∈ dynskipRun start (some policy) env' calls freshDynskip, r = none := by
  obtain ⟨path, rfl, hne, m, hread, hpairs⟩ := kvlExpertStoreOpen_denotes hopen hdtype hsparse
  refine ⟨?_, ?_⟩
  · intro calls call ids ws hfirst hlast hcfg hroute
    have hload := (routeRun_ready fl o.files (some path) calls).load
    unfold route q8RouterForLayer at hroute
    obtain ⟨text, htext, hok⟩ := readMaskFile_ok hread
    have hfresh := moeMaskLoad_fresh hne htext
    split_ifs at hfresh
    · rw [hload, hfresh] at hroute
      obtain ⟨hnd, hlen, hmem⟩ := q8RouteMasked_ok hroute
      refine ⟨hnd, hlen, fun e he => ?_⟩
      obtain ⟨hlt, henabled⟩ := hmem e he
      have he' : e < s.nExperts := by omega
      obtain ⟨layer, hlayer⟩ := Int.eq_ofNat_of_zero_le (show 0 ≤ call.layer by omega)
      rw [hlayer] at henabled hfirst hlast ⊢
      refine ⟨he', fetchable_of_notMem hL hE (by omega) (by omega) he' ?_⟩
      intro habsent
      rw [← hpairs] at habsent
      have := moeMaskLoad_covers hL hE hne htext hok hfresh habsent
      simp [this] at henabled
    · rw [hload, hfresh] at hroute
      simp at hroute
  · intro α start policy calls hpolicy
    exact dynskipRun_refused start hpolicy hne calls (.inl rfl)

end Sparse

theorem kvlExpertStoreOpen_sparse : kvlExpertStoreOpen sparseEnv [97] false none =
    ⟨0, { sparseStore with fd := 3, directIo := false }, some (97 :: maskSuffix)⟩ := by
  have hfile : sparseEnv.files [97] = some sparseIndex := rfl
  have hbind : bindSparseQ8Mask sparseStore sparseEnv [97] none =
      some (some (97 :: maskSuffix)) := by decide +kernel
  unfold kvlExpertStoreOpen
  rw [hfile, Option.bind_some, show sparseEnv.allocOk = true from rfl, readIndex_sparse]
  simp only [hbind]
  rfl

/-- Expert 1 scores higher, and the route takes expert 0, the one with a record. -/
def sparseCall : RouterCall Int :=
  ⟨1, ⟨1, 2, 1, 1, 1, false, 1⟩, fun _ => 1, fun e => 50 * e, fun _ => 0, true⟩

theorem sparse_store_routes_expert_zero :
    Fetchable { sparseStore with fd := 3, directIo := false } 1 0 := by
  have hsparse : absentPairs { sparseStore with fd := 3, directIo := false } ≠ ∅ :=
    sparse_iff.mp (by decide +kernel)
  exact (((sparse_store_routes_present intFloats kvlExpertStoreOpen_sparse rfl hsparse
    (by decide) (by decide)).1 [] sparseCall [0] [9] (by decide) (by decide) rfl
    (by decide +kernel)).2.2 0 (by simp)).2

end Kvl

import Kvl.Lib.Ownership
import Kvl.Trunk.Store

/-!
# The trunk cache over whole runs

A buffer is in the cache, or it belongs to the tensor it was returned in, or it
has been released. One case lemma says how a load can end, and every invariant
is read off it.
-/

namespace Kvl

set_option autoImplicit false

open Ownership

/-- The sum of `read_bytes` over the cached records. -/
def cachedSize (s : TrunkStore) : Nat :=
  ∑ idx ∈ Finset.range s.records.length,
    if (s.cached idx).isSome then (s.record idx).readBytes.toNat else 0

/-- The buffer that a tensor has to release. -/
def TrunkTensor.held (t : TrunkTensor) : Option Nat := if t.owned then t.base else none

/-- The cache table and the tensors that own their buffers. -/
def TrunkWorld.places (w : TrunkWorld) : Nat ⊕ Nat → Option Nat
  | .inl idx => w.store.cached idx
  | .inr v => (w.tensors v).held

def TrunkWorld.setTensor (w : TrunkWorld) (v : Nat) (t : TrunkTensor) : TrunkWorld :=
  { w with tensors := Function.update w.tensors v t }

def TrunkWorld.Owned (w : TrunkWorld) (owner : Nat → Owner (Nat ⊕ Nat)) : Prop :=
  Owners w.places w.heap.next w.heap.freed owner

/-- A record that is read whole from the data file. -/
def TrunkRecord.Inside (r : TrunkRecord) (file : Bytes) : Prop :=
  r.fileOffset.toNat + r.readBytes.toNat ≤ file.length

structure TrunkInv (file : Bytes) (w : TrunkWorld) : Prop where
  opened : 0 ≤ w.store.fd
  sum : w.store.cacheBytes.toNat = cachedSize w.store
  budget : w.store.cacheBytes.toNat ≤ w.store.cacheBudgetBytes.toNat
  layer : ∀ idx b, w.store.cached idx = some b →
    idx < w.store.records.length ∧ (w.store.record idx).layer ≠ trunkGlobalLayer
  content : ∀ idx b, w.store.cached idx = some b →
    (w.store.record idx).Inside file ∧ w.heap.data b = (w.store.record idx).bytes file

/-- What the counters of a store leave alone. -/
structure SameCache (s s' : TrunkStore) : Prop where
  fd : s'.fd = s.fd
  records : s'.records = s.records
  cacheBase : s'.cacheBase = s.cacheBase
  budget : s'.cacheBudgetBytes = s.cacheBudgetBytes
  cacheBytes : s'.cacheBytes = s.cacheBytes

/-- The store with one more buffer in its cache. -/
def TrunkStore.keep (s : TrunkStore) (idx b : Nat) : TrunkStore :=
  { s with
    cacheBase := s.cacheBase.map fun t => Function.update t idx (some b)
    cacheBytes := s.cacheBytes + (s.record idx).readBytes }

/-- A record that `kvl_trunk_load` does not refuse. -/
def TrunkRecord.Loadable (r : TrunkRecord) : Prop :=
  ¬ (r.readBytes = 0 ∨ r.fileOffset % trunkAlign ≠ 0 ∨ r.readBytes % trunkAlign ≠ 0)

/-- The record a load is about. -/
structure Found (s : TrunkStore) (layer kind : UInt32) (idx : Nat) : Prop where
  find : kvlTrunkFind s layer kind = some idx
  loadable : (s.record idx).Loadable

/-- The ways in which a load can end. -/
inductive LoadCase (file : Bytes) (s : TrunkStore) (h : BufferHeap) (out : TrunkTensor)
    (layer kind : UInt32) : TrunkLoad → Prop where
  | closed : s.fd < 0 → LoadCase file s h out layer kind ⟨-1, s, h, out⟩
  | refused {s' : TrunkStore} : SameCache s s' →
      LoadCase file s h out layer kind ⟨-1, s', h, emptyTensor⟩
  | shortRead {s' : TrunkStore} (idx : Nat) : SameCache s s' →
      LoadCase file s h out layer kind
        ⟨-1, s', (h.alloc ((s.record idx).bytes file)).free (some h.next), emptyTensor⟩
  | hit {s' : TrunkStore} {idx b : Nat} : SameCache s s' → Found s layer kind idx →
      s.cached idx = some b →
      LoadCase file s h out layer kind ⟨0, s', h, ⟨some idx, some b, false⟩⟩
  | lent {s' : TrunkStore} {idx : Nat} : SameCache s s' → Found s layer kind idx →
      (s.record idx).Inside file →
      LoadCase file s h out layer kind
        ⟨0, s', h.alloc ((s.record idx).bytes file), ⟨some idx, some h.next, true⟩⟩
  | kept {s' : TrunkStore} {idx : Nat} : SameCache (s.keep idx h.next) s' →
      Found s layer kind idx → s.cached idx = none → (s.record idx).Inside file →
      cacheEligible s (s.record idx) = true →
      LoadCase file s h out layer kind
        ⟨0, s', h.alloc ((s.record idx).bytes file), ⟨some idx, some h.next, false⟩⟩

theorem inside_of_complete {env : TrunkLoadEnv} {file : Bytes} {r : TrunkRecord}
    (h : env.complete file r = true) : r.Inside file := by
  unfold TrunkLoadEnv.complete at h
  rw [Bool.and_eq_true, decide_eq_true_eq] at h
  exact h.2

theorem load_cases (file : Bytes) (env : TrunkLoadEnv) (s : TrunkStore) (h : BufferHeap)
    (out : TrunkTensor) (layer kind : UInt32) :
    LoadCase file s h out layer kind (kvlTrunkLoad file env s h out layer kind) := by
  unfold kvlTrunkLoad
  split
  · exact .closed ‹_›
  · split
    · exact .refused ⟨rfl, rfl, rfl, rfl, rfl⟩
    · rename_i idx hfind
      dsimp only
      split
      · exact .refused ⟨rfl, rfl, rfl, rfl, rfl⟩
      · rename_i hloadable
        have hfound : Found s layer kind idx := ⟨hfind, hloadable⟩
        split
        · rename_i b hb
          exact .hit ⟨rfl, rfl, rfl, rfl, rfl⟩ hfound hb
        · rename_i hnone
          unfold loadUncached
          dsimp only
          split
          · exact .refused ⟨rfl, rfl, rfl, rfl, rfl⟩
          · split
            · exact .shortRead idx ⟨rfl, rfl, rfl, rfl, rfl⟩
            · rename_i hcomplete
              rw [Bool.not_eq_false] at hcomplete
              split
              · rename_i heligible
                exact .kept ⟨rfl, rfl, rfl, rfl, rfl⟩ hfound hnone (inside_of_complete hcomplete)
                  heligible
              · exact .lent ⟨rfl, rfl, rfl, rfl, rfl⟩ hfound (inside_of_complete hcomplete)

/-! ### The two tables -/

theorem SameCache.cached {s s' : TrunkStore} (h : SameCache s s') (idx : Nat) :
    s'.cached idx = s.cached idx := by
  unfold TrunkStore.cached
  rw [h.cacheBase]

theorem SameCache.record {s s' : TrunkStore} (h : SameCache s s') (idx : Nat) :
    s'.record idx = s.record idx := by
  unfold TrunkStore.record
  rw [h.records]

theorem SameCache.cachedSize {s s' : TrunkStore} (h : SameCache s s') :
    cachedSize s' = Kvl.cachedSize s := by
  unfold Kvl.cachedSize
  rw [h.records]
  apply Finset.sum_congr rfl
  intro idx _
  rw [h.cached, h.record]

theorem keep_cached {s : TrunkStore} (hbase : s.cacheBase.isSome = true) (idx b i : Nat) :
    (s.keep idx b).cached i = if i = idx then some b else s.cached i := by
  obtain ⟨t, ht⟩ := Option.isSome_iff_exists.mp hbase
  unfold TrunkStore.keep TrunkStore.cached
  rw [ht]
  exact Function.update_apply t idx (some b) i

theorem keep_record (s : TrunkStore) (idx b i : Nat) :
    (s.keep idx b).record i = s.record i := rfl

theorem find_lt {s : TrunkStore} {layer kind : UInt32} {idx : Nat}
    (h : kvlTrunkFind s layer kind = some idx) : idx < s.records.length := by
  unfold kvlTrunkFind at h
  rw [List.findIdx?_eq_some_iff_getElem] at h
  exact h.1

/-- One more record in the sum. -/
theorem keep_cachedSize {s : TrunkStore} (hbase : s.cacheBase.isSome = true) {idx : Nat} (b : Nat)
    (hidx : idx < s.records.length) (hnone : s.cached idx = none) :
    cachedSize (s.keep idx b) = cachedSize s + (s.record idx).readBytes.toNat := by
  unfold cachedSize
  change ∑ i ∈ Finset.range s.records.length, _ = _
  have hmem : idx ∈ Finset.range s.records.length := Finset.mem_range.mpr hidx
  rw [← Finset.add_sum_erase _ _ hmem, ← Finset.add_sum_erase _ _ hmem, keep_cached hbase,
    if_pos rfl, hnone, Nat.add_comm]
  simp only [Option.isSome_some, Option.isSome_none, if_true, Bool.false_eq_true, if_false,
    Nat.zero_add]
  rw [keep_record]
  congr 1
  apply Finset.sum_congr rfl
  intro i hi
  rw [keep_cached hbase, if_neg (Finset.ne_of_mem_erase hi), keep_record]

theorem eligible_spec {s : TrunkStore} {r : TrunkRecord} (h : cacheEligible s r = true) :
    r.layer ≠ trunkGlobalLayer ∧ s.cacheBase.isSome = true ∧
      r.readBytes ≤ s.cacheBudgetBytes - s.cacheBytes := by
  unfold cacheEligible at h
  rw [Bool.and_eq_true, Bool.and_eq_true, bne_iff_ne, decide_eq_true_eq] at h
  exact ⟨h.1.1, h.1.2, h.2⟩

theorem places_setTensor (w : TrunkWorld) (v : Nat) (t : TrunkTensor) :
    (w.setTensor v t).places =
      Function.update w.places (.inr v) t.held := by
  funext k
  cases k with
  | inl idx => exact (Function.update_of_ne Sum.inl_ne_inr _ _).symm
  | inr u =>
    by_cases hu : u = v
    · rw [hu, Function.update_self]
      unfold TrunkWorld.setTensor TrunkWorld.places
      dsimp only
      rw [Function.update_self]
    · have hne : (Sum.inr u : Nat ⊕ Nat) ≠ .inr v := fun h => hu (Sum.inr.inj h)
      rw [Function.update_of_ne hne]
      unfold TrunkWorld.setTensor TrunkWorld.places
      dsimp only
      rw [Function.update_of_ne hu]

theorem places_keep {w : TrunkWorld} {s' : TrunkStore} {h : BufferHeap}
    (hbase : w.store.cacheBase.isSome = true) {idx b : Nat}
    (hs : SameCache (w.store.keep idx b) s') :
    (TrunkWorld.mk s' h w.tensors).places = Function.update w.places (.inl idx) (some b) := by
  funext k
  cases k with
  | inl i =>
    unfold TrunkWorld.places
    dsimp only
    rw [hs.cached, keep_cached hbase]
    by_cases hi : i = idx
    · rw [hi, if_pos rfl, Function.update_self]
    · have hne : (Sum.inl i : Nat ⊕ Nat) ≠ .inl idx := fun h => hi (Sum.inl.inj h)
      rw [if_neg hi, Function.update_of_ne hne]
  | inr u => exact (Function.update_of_ne Sum.inr_ne_inl _ _).symm

theorem places_same {w : TrunkWorld} {s' : TrunkStore} {h : BufferHeap}
    (hs : SameCache w.store s') : (TrunkWorld.mk s' h w.tensors).places = w.places := by
  funext k
  cases k with
  | inl i => exact hs.cached i
  | inr u => rfl

/-! ### One call -/

/-- A call that does not overwrite a tensor that still has to be freed. -/
def TrunkCall.tidy (w : TrunkWorld) : TrunkCall → Prop
  | .load v _ _ _ => (w.tensors v).held = none
  | .free _ => True

theorem forget_owned {w : TrunkWorld} {owner : Nat → Owner (Nat ⊕ Nat)} (h : w.Owned owner)
    (v : Nat) {s' : TrunkStore} {t : TrunkTensor} (hs : SameCache w.store s')
    (ht : t.held = none) :
    ∃ owner', ((TrunkWorld.mk s' w.heap w.tensors).setTensor v t).Owned owner' ∧
      (NoneLost w.heap.next owner → (w.tensors v).held = none →
        NoneLost w.heap.next owner') := by
  refine ⟨_, ?_, fun hnone hv => @NoneLost.forget _ _ _ _ _ _ hnone h (.inr v) hv⟩
  unfold TrunkWorld.Owned
  rw [places_setTensor, places_same hs, ht]
  exact Owners.forget h (.inr v)

theorem load_owned {file : Bytes} {w : TrunkWorld} {owner : Nat → Owner (Nat ⊕ Nat)}
    (hopen : 0 ≤ w.store.fd) (h : w.Owned owner) (v : Nat) (layer kind : UInt32)
    (env : TrunkLoadEnv) :
    ∃ owner', (trunkStep file w (.load v layer kind env)).2.Owned owner' ∧
      (NoneLost w.heap.next owner → (w.tensors v).held = none →
        NoneLost (trunkStep file w (.load v layer kind env)).2.heap.next owner') := by
  have hcase := load_cases file env w.store w.heap (w.tensors v) layer kind
  unfold trunkStep
  dsimp only
  generalize kvlTrunkLoad file env w.store w.heap (w.tensors v) layer kind = load at hcase ⊢
  cases hcase with
  | closed hfd => exact absurd hfd (Int.not_lt.mpr hopen)
  | refused hs => exact forget_owned h v hs rfl
  | hit hs _ _ => exact forget_owned h v hs rfl
  | shortRead idx hs =>
    obtain ⟨owner', howned, hkeep⟩ := @forget_owned _ _ h v _ emptyTensor hs rfl
    refine ⟨_, Owners.scrap howned, fun hnone hv => (hkeep hnone hv).allocate ?_⟩
    intro hlost
    cases hlost
  | @lent s' idx hs hfind hinside =>
    obtain ⟨owner', howned, hkeep⟩ := @forget_owned _ _ h v _ emptyTensor hs rfl
    have hplaces : ((TrunkWorld.mk s' (w.heap.alloc ((w.store.record idx).bytes file))
        w.tensors).setTensor v ⟨some idx, some w.heap.next, true⟩).places =
        Function.update ((TrunkWorld.mk s' w.heap w.tensors).setTensor v emptyTensor).places
          (.inr v) (some w.heap.next) := by
      rw [places_setTensor, places_setTensor, Function.update_idem]
      rfl
    have howned' : ((TrunkWorld.mk s' (w.heap.alloc ((w.store.record idx).bytes file))
        w.tensors).setTensor v ⟨some idx, some w.heap.next, true⟩).Owned
        (Function.update owner' w.heap.next (.place (.inr v))) := by
      unfold TrunkWorld.Owned
      rw [hplaces]
      apply Owners.allocate howned
      rw [places_setTensor, Function.update_self]
      rfl
    refine ⟨_, howned', fun hnone hv => (hkeep hnone hv).allocate ?_⟩
    intro hlost
    cases hlost
  | @kept s' idx hs hfind hnone hinside heligible =>
    obtain ⟨-, hbase, -⟩ := eligible_spec heligible
    obtain ⟨owner', howned, hkeep⟩ :=
      @forget_owned _ _ h v w.store emptyTensor ⟨rfl, rfl, rfl, rfl, rfl⟩ rfl
    have hplaces : ((TrunkWorld.mk s' (w.heap.alloc ((w.store.record idx).bytes file))
        w.tensors).setTensor v ⟨some idx, some w.heap.next, false⟩).places =
        Function.update ((TrunkWorld.mk w.store w.heap w.tensors).setTensor v emptyTensor).places
          (.inl idx) (some w.heap.next) := by
      rw [places_setTensor, places_setTensor, places_keep hbase hs,
        Function.update_comm Sum.inr_ne_inl]
      rfl
    have howned' : ((TrunkWorld.mk s' (w.heap.alloc ((w.store.record idx).bytes file))
        w.tensors).setTensor v ⟨some idx, some w.heap.next, false⟩).Owned
        (Function.update owner' w.heap.next (.place (.inl idx))) := by
      unfold TrunkWorld.Owned
      rw [hplaces]
      apply Owners.allocate howned
      rw [places_setTensor, Function.update_of_ne Sum.inl_ne_inr]
      exact hnone
    refine ⟨_, howned', fun hlost hv => (hkeep hlost hv).allocate ?_⟩
    intro hlost
    cases hlost

theorem free_owned {file : Bytes} {w : TrunkWorld} {owner : Nat → Owner (Nat ⊕ Nat)}
    (h : w.Owned owner) (v : Nat) :
    ∃ owner', (trunkStep file w (.free v)).2.Owned owner' ∧
      (NoneLost w.heap.next owner →
        NoneLost (trunkStep file w (.free v)).2.heap.next owner') := by
  unfold trunkStep kvlTrunkTensorFree
  dsimp only
  cases hheld : (w.tensors v).held with
  | none =>
    have hheap : (if (w.tensors v).owned = true then w.heap.free (w.tensors v).base else w.heap) =
        w.heap := by
      unfold TrunkTensor.held at hheld
      split at hheld
      · rename_i howned
        rw [if_pos howned, hheld]
        rfl
      · rename_i howned
        rw [if_neg howned]
    rw [hheap]
    refine ⟨owner, ?_, id⟩
    change Owners (w.setTensor v emptyTensor).places _ _ _
    rw [places_setTensor, Function.update_eq_self_iff.mpr (hheld.symm : _)]
    exact h
  | some b =>
    have hheap : (if (w.tensors v).owned = true then w.heap.free (w.tensors v).base else w.heap) =
        w.heap.free (some b) := by
      unfold TrunkTensor.held at hheld
      split at hheld
      · rename_i howned
        rw [if_pos howned, hheld]
      · cases hheld
    rw [hheap]
    refine ⟨_, ?_, fun hnone => hnone.release b⟩
    change Owners (w.setTensor v emptyTensor).places _ _ _
    rw [places_setTensor]
    exact Owners.release h hheld

/-- Every call keeps the bookkeeping, and loses a buffer only if it is not tidy. -/
theorem step_owned {file : Bytes} {w : TrunkWorld} {owner : Nat → Owner (Nat ⊕ Nat)}
    (hopen : 0 ≤ w.store.fd) (h : w.Owned owner) (call : TrunkCall) :
    ∃ owner', (trunkStep file w call).2.Owned owner' ∧
      (NoneLost w.heap.next owner → call.tidy w →
        NoneLost (trunkStep file w call).2.heap.next owner') := by
  cases call with
  | load v layer kind env => exact load_owned hopen h v layer kind env
  | free v =>
    obtain ⟨owner', howned, hkeep⟩ := @free_owned file w owner h v
    exact ⟨owner', howned, fun hnone _ => hkeep hnone⟩

/-- The inserted record fits in what the budget leaves. -/
theorem keep_budget {s : TrunkStore} {r : TrunkRecord}
    (hbudget : s.cacheBytes.toNat ≤ s.cacheBudgetBytes.toNat)
    (hroom : r.readBytes ≤ s.cacheBudgetBytes - s.cacheBytes) :
    (s.cacheBytes + r.readBytes).toNat = s.cacheBytes.toNat + r.readBytes.toNat ∧
      s.cacheBytes.toNat + r.readBytes.toNat ≤ s.cacheBudgetBytes.toNat := by
  have hle : s.cacheBytes ≤ s.cacheBudgetBytes := UInt64.le_iff_toNat_le.mpr hbudget
  have hlt := s.cacheBudgetBytes.toNat_lt
  rw [UInt64.le_iff_toNat_le, UInt64.toNat_sub_of_le _ _ hle] at hroom
  have hfit : s.cacheBytes.toNat + r.readBytes.toNat ≤ s.cacheBudgetBytes.toNat := by omega
  refine ⟨?_, hfit⟩
  rw [UInt64.toNat_add, Nat.mod_eq_of_lt (by omega)]

/-- The invariant, for a store with the same cache and a heap with the cached buffers. -/
theorem TrunkInv.of_same {file : Bytes} {w : TrunkWorld} (h : TrunkInv file w) {s' : TrunkStore}
    {heap : BufferHeap} {tensors : Nat → TrunkTensor} (hs : SameCache w.store s')
    (hdata : ∀ idx b, w.store.cached idx = some b → heap.data b = w.heap.data b) :
    TrunkInv file ⟨s', heap, tensors⟩ := by
  constructor
  · rw [hs.fd]
    exact h.opened
  · rw [hs.cacheBytes, hs.cachedSize]
    exact h.sum
  · rw [hs.cacheBytes, hs.budget]
    exact h.budget
  · intro idx b hb
    rw [hs.cached] at hb
    rw [hs.record, hs.records]
    exact h.layer idx b hb
  · intro idx b hb
    rw [hs.cached] at hb
    rw [hs.record, hdata idx b hb]
    exact h.content idx b hb

theorem alloc_data {h : BufferHeap} {bytes : Bytes} {b : Nat} (hb : b < h.next) :
    (h.alloc bytes).data b = h.data b :=
  Function.update_of_ne (Nat.ne_of_lt hb) _ _

theorem TrunkInv.load {file : Bytes} {w : TrunkWorld} {owner : Nat → Owner (Nat ⊕ Nat)}
    (h : TrunkInv file w) (howned : w.Owned owner) (v : Nat) (layer kind : UInt32)
    (env : TrunkLoadEnv) : TrunkInv file (trunkStep file w (.load v layer kind env)).2 := by
  have hcase := load_cases file env w.store w.heap (w.tensors v) layer kind
  have hlt : ∀ idx b, w.store.cached idx = some b → b < w.heap.next := fun idx b hb =>
    ((howned.held (.inl idx) b).mp hb).1
  unfold trunkStep
  dsimp only
  generalize kvlTrunkLoad file env w.store w.heap (w.tensors v) layer kind = load at hcase ⊢
  cases hcase with
  | closed hfd => exact absurd hfd (Int.not_lt.mpr h.opened)
  | refused hs => exact h.of_same hs fun _ _ _ => rfl
  | hit hs _ _ => exact h.of_same hs fun _ _ _ => rfl
  | shortRead idx hs => exact h.of_same hs fun idx b hb => alloc_data (hlt idx b hb)
  | lent hs _ _ => exact h.of_same hs fun idx b hb => alloc_data (hlt idx b hb)
  | @kept s' idx hs hfind hnone hinside heligible =>
    obtain ⟨hlayer, hbase, hroom⟩ := eligible_spec heligible
    obtain ⟨hsum, hfit⟩ := keep_budget h.budget hroom
    have hidx := find_lt hfind.find
    constructor
    · exact hs.fd.symm ▸ h.opened
    · rw [hs.cacheBytes, hs.cachedSize, keep_cachedSize hbase _ hidx hnone, ← h.sum]
      exact hsum
    · rw [hs.cacheBytes, hs.budget]
      exact hsum.symm ▸ hfit
    · intro i b hb
      rw [hs.cached, keep_cached hbase] at hb
      rw [hs.record, hs.records]
      by_cases hi : i = idx
      · rw [hi]
        exact ⟨hidx, hlayer⟩
      · rw [if_neg hi] at hb
        exact h.layer i b hb
    · intro i b hb
      rw [hs.cached, keep_cached hbase] at hb
      rw [hs.record]
      by_cases hi : i = idx
      · rw [if_pos hi] at hb
        cases hb
        rw [hi]
        exact ⟨hinside, Function.update_self _ _ _⟩
      · rw [if_neg hi] at hb
        obtain ⟨hin, hdata⟩ := h.content i b hb
        exact ⟨hin, (alloc_data (hlt i b hb)).trans hdata⟩

theorem TrunkInv.free {file : Bytes} {w : TrunkWorld} (h : TrunkInv file w) (v : Nat) :
    TrunkInv file (trunkStep file w (.free v)).2 := by
  unfold trunkStep kvlTrunkTensorFree
  dsimp only
  apply h.of_same ⟨rfl, rfl, rfl, rfl, rfl⟩
  intro idx b _
  split
  · cases (w.tensors v).base <;> rfl
  · rfl

theorem TrunkInv.step {file : Bytes} {w : TrunkWorld} {owner : Nat → Owner (Nat ⊕ Nat)}
    (h : TrunkInv file w) (howned : w.Owned owner) (call : TrunkCall) :
    TrunkInv file (trunkStep file w call).2 := by
  cases call with
  | load v layer kind env => exact h.load howned v layer kind env
  | free v => exact h.free v

/-- What is cached stays cached. -/
theorem step_cached {file : Bytes} {w : TrunkWorld} (call : TrunkCall) {idx b : Nat}
    (hb : w.store.cached idx = some b) :
    (trunkStep file w call).2.store.cached idx = some b ∧
      (trunkStep file w call).2.store.record idx = w.store.record idx := by
  cases call with
  | free v => exact ⟨hb, rfl⟩
  | load v layer kind env =>
    have hcase := load_cases file env w.store w.heap (w.tensors v) layer kind
    unfold trunkStep
    dsimp only
    generalize kvlTrunkLoad file env w.store w.heap (w.tensors v) layer kind = load at hcase ⊢
    cases hcase with
    | closed _ => exact ⟨hb, rfl⟩
    | refused hs => exact ⟨(hs.cached idx).trans hb, hs.record idx⟩
    | hit hs _ _ => exact ⟨(hs.cached idx).trans hb, hs.record idx⟩
    | shortRead _ hs => exact ⟨(hs.cached idx).trans hb, hs.record idx⟩
    | lent hs _ _ => exact ⟨(hs.cached idx).trans hb, hs.record idx⟩
    | @kept s' i hs hfind hnone hinside heligible =>
      obtain ⟨-, hbase, -⟩ := eligible_spec heligible
      refine ⟨?_, (hs.record idx).trans (keep_record _ _ _ _)⟩
      have hne : idx ≠ i := by
        intro heq
        rw [heq, hnone] at hb
        cases hb
      rw [hs.cached, keep_cached hbase, if_neg hne]
      exact hb

/-! ### Runs -/

def tidyRun (file : Bytes) : TrunkWorld → List TrunkCall → Prop
  | _, [] => True
  | w, call :: calls => call.tidy w ∧ tidyRun file (trunkStep file w call).2 calls

/-- Each returned tensor is freed, before its variable is used again or at the end. -/
def AllFreed (file : Bytes) (w : TrunkWorld) (calls : List TrunkCall) : Prop :=
  tidyRun file w calls ∧ ∀ v, ((trunkRun file w calls).tensors v).held = none

theorem trunkRun_cons (file : Bytes) (w : TrunkWorld) (call : TrunkCall) (calls : List TrunkCall) :
    trunkRun file w (call :: calls) = trunkRun file (trunkStep file w call).2 calls := rfl

theorem run_spec {file : Bytes} {w : TrunkWorld} {owner : Nat → Owner (Nat ⊕ Nat)}
    (h : TrunkInv file w) (howned : w.Owned owner) (calls : List TrunkCall) :
    TrunkInv file (trunkRun file w calls) ∧ ∃ owner', (trunkRun file w calls).Owned owner' ∧
      (NoneLost w.heap.next owner → tidyRun file w calls →
        NoneLost (trunkRun file w calls).heap.next owner') := by
  induction calls generalizing w owner with
  | nil => exact ⟨h, owner, howned, fun hnone _ => hnone⟩
  | cons call calls ih =>
    rw [trunkRun_cons]
    obtain ⟨owner', howned', hkeep⟩ := @step_owned file w owner h.opened howned call
    obtain ⟨hinv, owner'', howned'', hrest⟩ := ih (h.step howned call) howned'
    refine ⟨hinv, owner'', howned'', ?_⟩
    rintro hnone ⟨htidy, hcalls⟩
    exact hrest (hkeep hnone htidy) hcalls

theorem run_cached {file : Bytes} {w : TrunkWorld} (calls : List TrunkCall) {idx b : Nat}
    (hb : w.store.cached idx = some b) :
    (trunkRun file w calls).store.cached idx = some b ∧
      (trunkRun file w calls).store.record idx = w.store.record idx := by
  induction calls generalizing w with
  | nil => exact ⟨hb, rfl⟩
  | cons call calls ih =>
    rw [trunkRun_cons]
    obtain ⟨hstep, hrecord⟩ := @step_cached file w call idx b hb
    obtain ⟨hrun, hsame⟩ := ih hstep
    exact ⟨hrun, hsame.trans hrecord⟩

theorem step_budget {file : Bytes} {w : TrunkWorld} (call : TrunkCall) :
    (trunkStep file w call).2.store.cacheBudgetBytes = w.store.cacheBudgetBytes := by
  cases call with
  | free v => rfl
  | load v layer kind env =>
    have hcase := load_cases file env w.store w.heap (w.tensors v) layer kind
    unfold trunkStep
    dsimp only
    generalize kvlTrunkLoad file env w.store w.heap (w.tensors v) layer kind = load at hcase ⊢
    cases hcase with
    | closed _ => rfl
    | refused hs => exact hs.budget
    | hit hs _ _ => exact hs.budget
    | shortRead _ hs => exact hs.budget
    | lent hs _ _ => exact hs.budget
    | kept hs _ _ _ _ => exact hs.budget

theorem run_budget {file : Bytes} {w : TrunkWorld} (calls : List TrunkCall) :
    (trunkRun file w calls).store.cacheBudgetBytes = w.store.cacheBudgetBytes := by
  induction calls generalizing w with
  | nil => rfl
  | cons call calls ih =>
    rw [trunkRun_cons, ih]
    exact step_budget call

/-- A store with nothing in its cache. -/
structure FreshStore (s : TrunkStore) : Prop where
  opened : 0 ≤ s.fd
  cached : ∀ idx, s.cached idx = none
  cacheBytes : s.cacheBytes = 0

theorem open_fresh {env : TrunkOpenEnv} {preferDirectIo : Bool} {s : TrunkStore}
    (h : kvlTrunkStoreOpen env preferDirectIo = some s) : FreshStore s := by
  unfold kvlTrunkStoreOpen at h
  split at h
  · cases h
  split at h
  · cases h
  split at h
  · cases h
  dsimp only at h
  split at h
  · cases h
  rename_i hfd
  obtain rfl := Option.some.inj h
  refine ⟨Int.not_lt.mp hfd, ?_, rfl⟩
  intro idx
  unfold TrunkStore.cached
  dsimp only
  split <;> rfl

theorem FreshStore.spec {s : TrunkStore} (h : FreshStore s) (file : Bytes) :
    TrunkInv file (openWorld s) ∧ (openWorld s).Owned fun _ => .lost := by
  constructor
  · constructor
    · exact h.opened
    · change s.cacheBytes.toNat = cachedSize s
      rw [h.cacheBytes]
      symm
      apply Finset.sum_eq_zero
      intro idx _
      rw [h.cached]
      rfl
    · change s.cacheBytes.toNat ≤ _
      rw [h.cacheBytes]
      exact Nat.zero_le _
    · intro idx b hb
      rw [show (openWorld s).store.cached idx = none from h.cached idx] at hb
      cases hb
    · intro idx b hb
      rw [show (openWorld s).store.cached idx = none from h.cached idx] at hb
      cases hb
  · have hplaces : (openWorld s).places = fun _ => none := by
      funext k
      cases k with
      | inl idx => exact h.cached idx
      | inr v => rfl
    unfold TrunkWorld.Owned
    rw [hplaces]
    exact owners_empty

/-! ### Closing -/

/-- The places once the first `n` cached buffers are released. -/
def placesFrom (w : TrunkWorld) (n : Nat) : Nat ⊕ Nat → Option Nat
  | .inl idx => if idx < n then none else w.store.cached idx
  | .inr v => (w.tensors v).held

theorem close_owned {w : TrunkWorld} {owner : Nat → Owner (Nat ⊕ Nat)} (h : w.Owned owner)
    (n : Nat) :
    let heap := (List.range n).foldl (fun h i => h.free (w.store.cached i)) w.heap
    heap.next = w.heap.next ∧ ∃ owner', Owners (placesFrom w n) heap.next heap.freed owner' ∧
      (NoneLost w.heap.next owner → NoneLost heap.next owner') := by
  induction n with
  | zero =>
    have hplaces : placesFrom w 0 = w.places := by
      funext k
      cases k with
      | inl idx =>
        unfold placesFrom
        dsimp only
        rw [if_neg (Nat.not_lt_zero idx)]
        rfl
      | inr v => rfl
    refine ⟨rfl, owner, ?_, id⟩
    rw [hplaces]
    exact h
  | succ n ih =>
    rw [List.range_succ, List.foldl_append]
    dsimp only [List.foldl_cons, List.foldl_nil] at ih ⊢
    generalize (List.range n).foldl (fun h i => h.free (w.store.cached i)) w.heap = heap at ih ⊢
    obtain ⟨hnext, owner', howned, hkeep⟩ := ih
    have hplaces : placesFrom w (n + 1) = Function.update (placesFrom w n) (.inl n) none := by
      funext k
      cases k with
      | inl idx =>
        by_cases hidx : idx = n
        · rw [hidx, Function.update_self]
          exact if_pos (Nat.lt_succ_self n)
        · have hne : (Sum.inl idx : Nat ⊕ Nat) ≠ .inl n := fun h => hidx (Sum.inl.inj h)
          rw [Function.update_of_ne hne]
          have hiff : idx < n + 1 ↔ idx < n := by omega
          unfold placesFrom
          dsimp only
          rw [if_congr hiff rfl rfl]
      | inr v => exact (Function.update_of_ne Sum.inr_ne_inl _ _).symm
    have hn : placesFrom w n (.inl n) = w.store.cached n := if_neg (Nat.lt_irrefl n)
    rw [hplaces]
    cases hb : w.store.cached n with
    | none =>
      rw [hb] at hn
      refine ⟨hnext, owner', ?_, hkeep⟩
      rw [Function.update_eq_self_iff.mpr hn.symm]
      exact howned
    | some b =>
      rw [hb] at hn
      exact ⟨hnext, _, Owners.release howned hn, fun hnone => (hkeep hnone).release b⟩

/-! ### What a load returns -/

/-- The load without a cache, its allocation and its read complete. -/
def plainLoad (file : Bytes) (s : TrunkStore) (h : BufferHeap) (layer kind : UInt32) : TrunkLoad :=
  kvlTrunkLoad file ⟨true, true⟩ { s with cacheBase := none } h emptyTensor layer kind

/-- Both loads succeed and return the same bytes of the same record. -/
def SameBytes (load plain : TrunkLoad) : Prop :=
  load.rc = 0 ∧ plain.rc = 0 ∧ load.out.record = plain.out.record ∧
    ∃ b b', load.out.base = some b ∧ plain.out.base = some b' ∧
      load.heap.data b = plain.heap.data b'

theorem plainLoad_spec {file : Bytes} {s : TrunkStore} {h : BufferHeap} {layer kind : UInt32}
    {idx : Nat} (hfd : 0 ≤ s.fd) (hfound : Found s layer kind idx)
    (hinside : (s.record idx).Inside file) :
    (plainLoad file s h layer kind).rc = 0 ∧
      (plainLoad file s h layer kind).out.record = some idx ∧
      (plainLoad file s h layer kind).out.base = some h.next ∧
      (plainLoad file s h layer kind).heap.data h.next = (s.record idx).bytes file := by
  have hfind : kvlTrunkFind { s with cacheBase := none } layer kind = some idx := hfound.find
  have hloadable := hfound.loadable
  unfold TrunkRecord.Loadable at hloadable
  have hcomplete : ¬ (TrunkLoadEnv.mk true true).complete file (s.record idx) = false := by
    unfold TrunkLoadEnv.complete
    rw [Bool.true_and, decide_eq_false_iff_not, not_not]
    exact hinside
  have heligible : ∀ (s' : TrunkStore) (r : TrunkRecord), s'.cacheBase = none →
      ¬ cacheEligible s' r = true := by
    intro s' r hbase helig
    have hsome := (eligible_spec helig).2.1
    rw [hbase] at hsome
    cases hsome
  have hload : plainLoad file s h layer kind =
      ⟨0, { s with
          cacheBase := none
          loadCalls := s.loadCalls + 1
          bytesRead := s.bytesRead + (s.record idx).readBytes.toNat },
        h.alloc ((s.record idx).bytes file), ⟨some idx, some h.next, true⟩⟩ := by
    unfold plainLoad kvlTrunkLoad
    rw [if_neg (Int.not_lt.mpr hfd), hfind]
    dsimp only
    refine (if_neg hloadable).trans ?_
    unfold loadUncached
    rw [if_neg Bool.true_eq_false_eq_False]
    refine (if_neg hcomplete).trans ?_
    exact if_neg (heligible _ _ rfl)
  rw [hload]
  exact ⟨rfl, rfl, rfl, Function.update_self _ _ _⟩

theorem load_spec {file : Bytes} {w : TrunkWorld} (h : TrunkInv file w) (out : TrunkTensor)
    (layer kind : UInt32) (env : TrunkLoadEnv) :
    let load := kvlTrunkLoad file env w.store w.heap out layer kind
    (load.rc = 0 → SameBytes load (plainLoad file w.store w.heap layer kind)) ∧
      (load.rc ≠ 0 → load.store.cached = w.store.cached ∧
        load.store.cacheBytes = w.store.cacheBytes) := by
  have hcase := load_cases file env w.store w.heap out layer kind
  dsimp only
  generalize kvlTrunkLoad file env w.store w.heap out layer kind = load at hcase ⊢
  cases hcase with
  | closed hfd => exact absurd hfd (Int.not_lt.mpr h.opened)
  | refused hs =>
    refine ⟨fun hrc => ?_, fun _ => ⟨funext hs.cached, hs.cacheBytes⟩⟩
    cases hrc
  | shortRead idx hs =>
    refine ⟨fun hrc => ?_, fun _ => ⟨funext hs.cached, hs.cacheBytes⟩⟩
    cases hrc
  | @hit s' idx b hs hfound hb =>
    obtain ⟨hinside, hdata⟩ := h.content idx b hb
    obtain ⟨hrc, hrecord, hbase, hplain⟩ := @plainLoad_spec _ _ w.heap _ _ _ h.opened hfound hinside
    refine ⟨fun _ => ⟨rfl, hrc, hrecord.symm, b, _, rfl, hbase, ?_⟩, fun hne => absurd rfl hne⟩
    exact hdata.trans hplain.symm
  | @lent s' idx hs hfound hinside =>
    obtain ⟨hrc, hrecord, hbase, hplain⟩ := @plainLoad_spec _ _ w.heap _ _ _ h.opened hfound hinside
    refine ⟨fun _ => ⟨rfl, hrc, hrecord.symm, _, _, rfl, hbase, ?_⟩, fun hne => absurd rfl hne⟩
    exact (Function.update_self _ _ _).trans hplain.symm
  | @kept s' idx hs hfound hnone hinside heligible =>
    obtain ⟨hrc, hrecord, hbase, hplain⟩ := @plainLoad_spec _ _ w.heap _ _ _ h.opened hfound hinside
    refine ⟨fun _ => ⟨rfl, hrc, hrecord.symm, _, _, rfl, hbase, ?_⟩, fun hne => absurd rfl hne⟩
    exact (Function.update_self _ _ _).trans hplain.symm

/-- Over any run of an opened store: the cache accounts for its bytes and keeps to its
budget and to the layers, loads return what the file has, and each buffer is
released once at most, and once if the tensors are freed. -/
theorem trunkRun_invariant {openEnv : TrunkOpenEnv} {preferDirectIo : Bool} {s : TrunkStore}
    (hopen : kvlTrunkStoreOpen openEnv preferDirectIo = some s) (file : Bytes)
    (calls : List TrunkCall) :
    let w := trunkRun file (openWorld s) calls
    let closed := kvlTrunkStoreClose w.store w.heap
    (w.store.cacheBytes.toNat = cachedSize w.store ∧
      w.store.cacheBytes.toNat ≤ w.store.cacheBudgetBytes.toNat ∧
      w.store.cacheBudgetBytes = s.cacheBudgetBytes) ∧
    (∀ idx b, w.store.cached idx = some b → (w.store.record idx).layer ≠ trunkGlobalLayer) ∧
    (∀ (out : TrunkTensor) (layer kind : UInt32) (env : TrunkLoadEnv),
      let load := kvlTrunkLoad file env w.store w.heap out layer kind
      (load.rc = 0 → SameBytes load (plainLoad file w.store w.heap layer kind)) ∧
      (load.rc ≠ 0 → load.store.cached = w.store.cached ∧
        load.store.cacheBytes = w.store.cacheBytes)) ∧
    (∀ idx b, w.store.cached idx = some b → ∀ more,
      let later := trunkRun file w more
      later.store.cached idx = some b ∧ b ∉ later.heap.freed ∧
        later.heap.data b = w.heap.data b) ∧
    closed.2.freed.Nodup ∧ (∀ b ∈ closed.2.freed, b < closed.2.next) ∧
    (AllFreed file (openWorld s) calls → ∀ b < closed.2.next, b ∈ closed.2.freed) := by
  obtain ⟨hinit, hnobody⟩ := (open_fresh hopen).spec file
  obtain ⟨hinv, owner, howned, hkeep⟩ := run_spec hinit hnobody calls
  have hbudget := @run_budget file (openWorld s) calls
  dsimp only
  generalize hw : trunkRun file (openWorld s) calls = w at hinv howned hkeep hbudget ⊢
  obtain ⟨hnext, owner', hclosed, hlost⟩ := close_owned howned w.store.records.length
  refine ⟨⟨hinv.sum, hinv.budget, hbudget⟩, fun idx b hb => (hinv.layer idx b hb).2,
    fun out layer kind env => load_spec hinv out layer kind env, ?_, hclosed.once,
    fun b hb => ((hclosed.released b).mp hb).1, ?_⟩
  · intro idx b hb more
    obtain ⟨hlater, owner'', howned', -⟩ := run_spec hinv howned more
    obtain ⟨hcached, hrecord⟩ := @run_cached file w more idx b hb
    refine ⟨hcached, howned'.not_freed (k := .inl idx) hcached, ?_⟩
    rw [(hlater.content idx b hcached).2, (hinv.content idx b hb).2, hrecord]
  · rintro ⟨htidy, hheld⟩ b hb
    have hnone : NoneLost w.heap.next owner :=
      hkeep (fun b hb => absurd hb (Nat.not_lt_zero b)) htidy
    apply hclosed.all_released (hlost hnone) _ hb
    intro k
    cases k with
    | inl idx =>
      unfold placesFrom
      dsimp only
      split
      · rfl
      · rename_i hidx
        cases hcached : w.store.cached idx with
        | none => rfl
        | some b => exact absurd (hinv.layer idx b hcached).1 hidx
    | inr v =>
      rw [hw] at hheld
      exact hheld v

/-- An index of a layer's tensor and of a global one, of a page each. -/
def smallTrunkIndex : Bytes :=
  trunkMagic ++ toLE 4 1 ++ toLE 4 4096 ++ toLE 4 2 ++ toLE 4 0 ++ toLE 8 40 ++ toLE 8 8192 ++
    toLE 4 0 ++ toLE 4 10 ++ toLE 8 0 ++ toLE 8 0 ++ toLE 8 0 ++ toLE 8 0 ++ toLE 8 4096 ++
    toLE 8 4096 ++ toLE 4 0xffffffff ++ toLE 4 1 ++ toLE 8 0 ++ toLE 8 0 ++ toLE 8 0 ++
    toLE 8 4096 ++ toLE 8 4096 ++ toLE 8 4096

def smallTrunkEnv : TrunkOpenEnv :=
  ⟨some smallTrunkIndex, true, some [49], true, fun _ => 3⟩

def smallTrunkRecords : List TrunkRecord := [⟨0, 10, 0, 4096⟩, ⟨trunkGlobalLayer, 1, 4096, 4096⟩]

/-- The cached tensor twice, the global one once and freed. -/
def smallTrunkCalls : List TrunkCall :=
  [.load 0 0 10 ⟨true, true⟩, .load 1 trunkGlobalLayer 1 ⟨true, true⟩, .free 1,
    .load 1 0 10 ⟨true, true⟩]

def smallTrunkStore : TrunkStore where
  fd := 3
  directIo := true
  records := smallTrunkRecords
  cacheBase := some fun _ => none
  cacheBudgetBytes := 1048576
  cacheBytes := 0
  cacheConfigured := true
  loadCalls := 0
  cacheHits := 0
  cacheInserts := 0
  bytesRead := 0

theorem smallTrunk_open : kvlTrunkStoreOpen smallTrunkEnv true = some smallTrunkStore := by
  have hindex : readTrunkIndex smallTrunkIndex true = some smallTrunkRecords := by decide +kernel
  have hbudget : readCacheBudget (some [49]) = some (1048576, true) := by decide +kernel
  unfold kvlTrunkStoreOpen smallTrunkEnv
  dsimp only [Option.bind_some]
  rw [hindex]
  dsimp only
  rw [hbudget]
  rfl

theorem trunkRun_invariant_small :
    let file := List.replicate 8192 (7 : UInt8)
    let closed := kvlTrunkStoreClose (trunkRun file (openWorld smallTrunkStore) smallTrunkCalls).store
      (trunkRun file (openWorld smallTrunkStore) smallTrunkCalls).heap
    closed.2.freed.Nodup ∧ ∀ b < closed.2.next, b ∈ closed.2.freed := by
  have h := trunkRun_invariant smallTrunk_open (List.replicate 8192 7) smallTrunkCalls
  refine ⟨h.2.2.2.2.1, h.2.2.2.2.2.2 ⟨⟨rfl, rfl, trivial, rfl, trivial⟩, ?_⟩⟩
  intro v
  match v with
  | 0 => decide +kernel
  | 1 => decide +kernel
  | v + 2 => rfl

end Kvl

import Kvl.Store.Index
import Kvl.Store.Mask

/-!
# Opening an expert store

`kvl_expert_store_open`: read the index, bind the mask of a sparse Q8 store,
open the data file. Files are a function from paths to contents, and
`KVL_MOE_MASK` is the one environment variable the call reads and sets.
-/

namespace Kvl

set_option autoImplicit false

open CText

/-- What the call meets outside the process. -/
structure OpenEnv where
  files : Bytes → Option Bytes
  allocOk : Bool
  setenvOk : Bool
  /-- The descriptor `kvl_open_data` returns with and without direct I/O. -/
  openData : Bool → Int

def idxSuffix : Bytes := [46, 105, 100, 120]
def maskSuffix : Bytes := [46, 109, 97, 115, 107]

def maskSidecarPath (idxPath : Bytes) : Bytes :=
  if idxPath.length ≥ 4 ∧ idxPath.drop (idxPath.length - 4) = idxSuffix then
    idxPath.take (idxPath.length - 4) ++ maskSuffix
  else idxPath ++ maskSuffix

def firstMoeLayer (s : ExpertStore) : Nat := if s.nLayers > 1 then 1 else 0

/-- The cells of the layers from `first` up to `last`, in loop order. -/
def layerCells (s : ExpertStore) (first last : Nat) : List Nat :=
  (List.range' first (last - first)).flatMap fun layer =>
    (List.range s.nExperts).map fun expert => maskCell s.hdr layer expert

def routedCells (s : ExpertStore) : List Nat := layerCells s (firstMoeLayer s) s.nLayers

def isPresent (s : ExpertStore) (k : Nat) : Bool := s.recordOf k ≥ 0

/-- Whether the bound mask disagrees with the records of the store. -/
def maskMismatch (s : ExpertStore) (bound : Mask) : Bool :=
  bound.count != (routedCells s).length - (routedCells s).countP (isPresent s) ||
    (routedCells s).any (fun k => bound.disabled k != !isPresent s k) ||
    (layerCells s 0 (firstMoeLayer s)).any bound.disabled

/-- `memcmp` over the two tables. -/
def sameTable (s : ExpertStore) (a b : Mask) : Bool :=
  (List.range s.mapN).all fun k => a.disabled k == b.disabled k

/-- The last step: compare a requested mask, or publish the sidecar. -/
def bindMaskEnv (s : ExpertStore) (o : OpenEnv) (sidecar : Bytes) (bound : Mask)
    (env : Option Bytes) : Option (Option Bytes) :=
  match env with
  | some (c :: path) =>
    match readMaskFile s.hdr (o.files (c :: path)) with
    | none => none
    | some requested =>
      if requested.count ≠ bound.count ∨ !sameTable s requested bound then none else some env
  | _ => if o.setenvOk then some (some sidecar) else none

/-- The new value of `KVL_MOE_MASK`, or `none` where the source returns -1. -/
def bindSparseQ8Mask (s : ExpertStore) (o : OpenEnv) (idxPath : Bytes) (env : Option Bytes) :
    Option (Option Bytes) :=
  if s.hdr.dtype ≠ dtypeQ8Row then some env
  else if !o.allocOk then none
  else
    let sidecar := maskSidecarPath idxPath
    if ¬ (routedCells s).countP (isPresent s) < (routedCells s).length then
      if (o.files sidecar).isSome then none else some env
    else
      match readMaskFile s.hdr (o.files sidecar) with
      | none => none
      | some bound => if maskMismatch s bound then none else bindMaskEnv s o sidecar bound env

/-- A closed store: everything zero but the descriptor. -/
def emptyStore : ExpertStore where
  fd := -1
  directIo := false
  hdr := ⟨List.replicate 8 0, 0, 0, 0, 0, 0, 0, 0, 0⟩
  records := []
  ggufQ8Sources := none
  recordOf := fun _ => -1

structure OpenResult where
  rc : Int
  store : ExpertStore
  env : Option Bytes

/-- The data file, with direct I/O first if that is preferred. -/
def openDataFile (s : ExpertStore) (o : OpenEnv) (preferDirectIo : Bool) : ExpertStore :=
  let fd := o.openData preferDirectIo
  if fd ≥ 0 then { s with fd := fd, directIo := preferDirectIo }
  else if preferDirectIo then { s with fd := o.openData false, directIo := false }
  else { s with fd := fd }

def kvlExpertStoreOpen (o : OpenEnv) (idxPath : Bytes) (preferDirectIo : Bool)
    (env : Option Bytes) : OpenResult :=
  match (o.files idxPath).bind fun file => readIndex file o.allocOk with
  | none => ⟨-1, emptyStore, env⟩
  | some s =>
    match bindSparseQ8Mask s o idxPath env with
    | none => ⟨-1, emptyStore, env⟩
    | some env =>
      let s := openDataFile s o preferDirectIo
      if s.fd < 0 then ⟨-1, emptyStore, env⟩ else ⟨0, s, env⟩

section Spec
variable {s : ExpertStore}

/-- The routed pairs without a record. -/
def absentPairs (s : ExpertStore) : Set (Nat × Nat) :=
  {p | firstMoeLayer s ≤ p.1 ∧ p.1 < s.nLayers ∧ p.2 < s.nExperts ∧
    s.recordAt (maskCell s.hdr p.1 p.2) = none}

/-- `path` names a mask file that the store's parser reads as exactly `pairs`. -/
def FileDenotes (hdr : ExpertIndexHeader) (files : Bytes → Option Bytes) (path : Bytes)
    (pairs : Set (Nat × Nat)) : Prop :=
  ∃ m, readMaskFile hdr (files path) = some m ∧ m.pairs hdr = pairs

/-- A mask variable that is set and not empty denotes `pairs`. -/
def RequestAgrees (hdr : ExpertIndexHeader) (files : Bytes → Option Bytes) (env : Option Bytes)
    (pairs : Set (Nat × Nat)) : Prop :=
  ∀ path, env = some path → path ≠ [] → FileDenotes hdr files path pairs

theorem recordAt_eq_none {k : Nat} : s.recordAt k = none ↔ isPresent s k = false := by
  unfold ExpertStore.recordAt isPresent
  by_cases h : s.recordOf k < 0
  · simp [h, Int.not_le.mpr h]
  · simp [h, Int.not_lt.mp h]

theorem mem_layerCells {first last k : Nat} :
    k ∈ layerCells s first last ↔ ∃ layer expert, first ≤ layer ∧ layer < last ∧
      expert < s.nExperts ∧ maskCell s.hdr layer expert = k := by
  simp only [layerCells, List.mem_flatMap, List.mem_range'_1, List.mem_map, List.mem_range]
  constructor
  · rintro ⟨layer, ⟨hfirst, hlast⟩, expert, he, hk⟩
    exact ⟨layer, expert, hfirst, by omega, he, hk⟩
  · rintro ⟨layer, expert, hfirst, hlast, he, hk⟩
    exact ⟨layer, ⟨hfirst, by omega⟩, expert, he, hk⟩

theorem firstMoeLayer_le (s : ExpertStore) : firstMoeLayer s ≤ s.nLayers := by
  unfold firstMoeLayer
  split <;> omega

theorem layerCells_append (s : ExpertStore) {first mid last : Nat} (h : first ≤ mid)
    (h' : mid ≤ last) : layerCells s first mid ++ layerCells s mid last =
      layerCells s first last := by
  obtain ⟨a, rfl⟩ := Nat.exists_eq_add_of_le h
  obtain ⟨b, rfl⟩ := Nat.exists_eq_add_of_le h'
  have ha : first + a - first = a := by omega
  have hb : first + a + b - (first + a) = b := by omega
  have hab : first + a + b - first = a + b := by omega
  simp only [layerCells, ha, hb, hab, ← List.flatMap_append, List.range'_append_1]

theorem layerCells_zero (s : ExpertStore) (n : Nat) :
    layerCells s 0 n = List.range (n * s.nExperts) := by
  induction n with
  | zero => simp [layerCells]
  | succ n ih =>
    rw [← layerCells_append s (Nat.zero_le n) (Nat.le_succ n), ih, Nat.succ_mul, List.range_add]
    have hone : n + 1 - n = 1 := by omega
    simp [layerCells, hone, maskCell, ExpertStore.nExperts]

/-- All cells are those before the first routed layer and the routed ones. -/
theorem range_mapN (s : ExpertStore) :
    List.range s.mapN = layerCells s 0 (firstMoeLayer s) ++ routedCells s := by
  rw [routedCells, layerCells_append s (Nat.zero_le _) (firstMoeLayer_le s), layerCells_zero]
  rfl

theorem countP_lt_length_iff {l : List Nat} {p : Nat → Bool} :
    l.countP p < l.length ↔ ∃ k ∈ l, p k = false := by
  rw [← not_iff_not, not_lt]
  constructor
  · intro h hex
    obtain ⟨k, hk, hp⟩ := hex
    have hall := List.countP_eq_length.mp (le_antisymm List.countP_le_length h) k hk
    simp [hall] at hp
  · intro h
    apply le_of_eq
    symm
    rw [List.countP_eq_length]
    intro k hk
    by_contra hp
    exact h ⟨k, hk, by simpa using hp⟩

/-- A store is sparse in the sense of the counters when some routed pair is absent. -/
theorem sparse_iff : (routedCells s).countP (isPresent s) < (routedCells s).length ↔
    absentPairs s ≠ ∅ := by
  rw [countP_lt_length_iff, ← Set.nonempty_iff_ne_empty]
  constructor
  · rintro ⟨k, hk, hp⟩
    obtain ⟨layer, expert, hfirst, hlast, he, rfl⟩ := mem_layerCells.mp hk
    exact ⟨(layer, expert), hfirst, hlast, he, recordAt_eq_none.mpr hp⟩
  · rintro ⟨⟨layer, expert⟩, hfirst, hlast, he, hnone⟩
    exact ⟨_, mem_layerCells.mpr ⟨layer, expert, hfirst, hlast, he, rfl⟩, recordAt_eq_none.mp hnone⟩

theorem Mask.mem_pairs {m : Mask} {layer expert : Nat} (hl : layer < s.nLayers)
    (he : expert < s.nExperts) :
    (layer, expert) ∈ m.pairs s.hdr ↔ m.disabled (maskCell s.hdr layer expert) = true :=
  ⟨fun h => h.2.2, fun h => ⟨hl, he, h⟩⟩

/-- The two loops of the check find nothing exactly when the pairs are the absent ones. -/
theorem pairs_eq_absent_iff {m : Mask} : m.pairs s.hdr = absentPairs s ↔
    (∀ k ∈ routedCells s, m.disabled k = !isPresent s k) ∧
      ∀ k ∈ layerCells s 0 (firstMoeLayer s), m.disabled k = false := by
  constructor
  · intro heq
    refine ⟨?_, ?_⟩
    · intro k hk
      obtain ⟨layer, expert, hfirst, hlast, he, rfl⟩ := mem_layerCells.mp hk
      have hmem := Mask.mem_pairs (m := m) hlast he
      rw [heq] at hmem
      rw [Bool.eq_iff_iff, ← hmem, Bool.not_eq_true', ← recordAt_eq_none]
      exact ⟨fun h => h.2.2.2, fun h => ⟨hfirst, hlast, he, h⟩⟩
    · intro k hk
      obtain ⟨layer, expert, _, hlast, he, rfl⟩ := mem_layerCells.mp hk
      have hl := hlast.trans_le (firstMoeLayer_le s)
      by_contra hdis
      have hmem := (Mask.mem_pairs (m := m) hl he).mpr (by simpa using hdis)
      rw [heq] at hmem
      exact absurd hmem.1 (Nat.not_le_of_gt hlast)
  · rintro ⟨hrouted, hother⟩
    ext ⟨layer, expert⟩
    constructor
    · rintro ⟨hl, he, hdis⟩
      by_cases hfirst : firstMoeLayer s ≤ layer
      · have hk := mem_layerCells.mpr ⟨layer, expert, hfirst, hl, he, rfl⟩
        rw [hrouted _ hk, Bool.not_eq_true'] at hdis
        exact ⟨hfirst, hl, he, recordAt_eq_none.mpr hdis⟩
      · have hk := mem_layerCells.mpr
          ⟨layer, expert, Nat.zero_le _, Nat.lt_of_not_le hfirst, he, rfl⟩
        rw [hother _ hk] at hdis
        simp at hdis
    · rintro ⟨hfirst, hl, he, hnone⟩
      have hk := mem_layerCells.mpr ⟨layer, expert, hfirst, hl, he, rfl⟩
      refine ⟨hl, he, ?_⟩
      rw [hrouted _ hk, recordAt_eq_none.mp hnone]
      rfl

/-- A mask that agrees with the store has one entry per missing record. -/
theorem MaskOk.count_eq {done : List Bytes} {m : Mask} (h : MaskOk s.hdr done m)
    (heq : m.pairs s.hdr = absentPairs s) :
    m.count = (routedCells s).length - (routedCells s).countP (isPresent s) := by
  obtain ⟨hrouted, hother⟩ := pairs_eq_absent_iff.mp heq
  have hzero : (layerCells s 0 (firstMoeLayer s)).countP m.disabled = 0 := by
    rw [List.countP_eq_zero]
    intro k hk
    simp [hother k hk]
  have hmissing : (routedCells s).countP m.disabled =
      (routedCells s).countP fun k => !isPresent s k := by
    apply List.countP_congr
    intro k hk
    rw [hrouted k hk]
  have hsplit := List.length_eq_countP_add_countP (isPresent s) (l := routedCells s)
  have hcount : m.count = (List.range s.mapN).countP m.disabled := h.count
  rw [hcount, range_mapN, List.countP_append, hzero, hmissing, hsplit]
  simp

theorem maskMismatch_eq_false_iff {done : List Bytes} {m : Mask} (h : MaskOk s.hdr done m) :
    maskMismatch s m = false ↔ m.pairs s.hdr = absentPairs s := by
  have hloops : ((routedCells s).any (fun k => m.disabled k != !isPresent s k) = false ∧
      (layerCells s 0 (firstMoeLayer s)).any m.disabled = false) ↔
        m.pairs s.hdr = absentPairs s := by
    rw [pairs_eq_absent_iff]
    simp only [List.any_eq_false, bne_iff_ne, ne_eq, not_not, Bool.not_eq_true]
  simp only [maskMismatch, Bool.or_eq_false_iff, and_assoc, hloops]
  constructor
  · exact fun hall => hall.2
  · exact fun heq => ⟨by simp [h.count_eq heq], heq⟩

theorem sameTable_iff {a b : Mask} : sameTable s a b = true ↔ a.pairs s.hdr = b.pairs s.hdr := by
  simp only [sameTable, List.all_eq_true, List.mem_range, beq_iff_eq]
  constructor
  · intro h
    ext ⟨layer, expert⟩
    constructor
    · rintro ⟨hl, he, hdis⟩
      exact ⟨hl, he, by rw [← h _ (maskCell_lt hl he)]; exact hdis⟩
    · rintro ⟨hl, he, hdis⟩
      exact ⟨hl, he, by rw [h _ (maskCell_lt hl he)]; exact hdis⟩
  · intro h k hk
    have hmem : k ∈ layerCells s 0 s.nLayers := by
      rw [layerCells_zero]
      exact List.mem_range.mpr hk
    obtain ⟨layer, expert, _, hl, he, rfl⟩ := mem_layerCells.mp hmem
    rw [Bool.eq_iff_iff, ← Mask.mem_pairs hl he, ← Mask.mem_pairs hl he, h]

theorem maskSidecarPath_ne_nil (idxPath : Bytes) : maskSidecarPath idxPath ≠ [] := by
  unfold maskSidecarPath
  split <;> simp [maskSuffix]

theorem readMaskFile_denotes_iff {files : Bytes → Option Bytes} {path : Bytes} {m : Mask}
    (h : readMaskFile s.hdr (files path) = some m) (pairs : Set (Nat × Nat)) :
    FileDenotes s.hdr files path pairs ↔ m.pairs s.hdr = pairs := by
  constructor
  · rintro ⟨m', hm', rfl⟩
    obtain rfl := Option.some.inj (h.symm.trans hm')
    rfl
  · exact fun heq => ⟨m, h, heq⟩

theorem requestAgrees_unset {hdr : ExpertIndexHeader} {files : Bytes → Option Bytes}
    {env : Option Bytes} {pairs : Set (Nat × Nat)} (h : ∀ c path, env ≠ some (c :: path)) :
    RequestAgrees hdr files env pairs := by
  intro path hp hne
  obtain ⟨c, rest, rfl⟩ := List.exists_cons_of_ne_nil hne
  exact absurd hp (h c rest)

/-- Two accepted masks with the same pairs have the same count and table. -/
theorem requested_matches_iff {done done' : List Bytes} {requested bound : Mask}
    (h : MaskOk s.hdr done requested) (h' : MaskOk s.hdr done' bound) :
    ¬ (requested.count ≠ bound.count ∨ (!sameTable s requested bound) = true) ↔
      requested.pairs s.hdr = bound.pairs s.hdr := by
  rw [← sameTable_iff, not_or, not_not, Bool.not_eq_true, Bool.not_eq_false']
  refine ⟨fun hall => hall.2, fun htable => ⟨?_, htable⟩⟩
  rw [h.count, h'.count]
  apply List.countP_congr
  intro k hk
  simp only [sameTable, List.all_eq_true, beq_iff_eq] at htable
  rw [htable k hk]

theorem bindMaskEnv_isSome_iff {o : OpenEnv} {sidecar : Bytes} {bound : Mask} {done : List Bytes}
    (env : Option Bytes) (hset : o.setenvOk = true) (hbound : MaskOk s.hdr done bound) :
    (bindMaskEnv s o sidecar bound env).isSome ↔
      RequestAgrees s.hdr o.files env (bound.pairs s.hdr) := by
  unfold bindMaskEnv
  split
  · rename_i c path
    have hagree : RequestAgrees s.hdr o.files (some (c :: path)) (bound.pairs s.hdr) ↔
        FileDenotes s.hdr o.files (c :: path) (bound.pairs s.hdr) := by
      constructor
      · exact fun h => h _ rfl (by simp)
      · rintro h p hp _
        obtain rfl := Option.some.inj hp
        exact h
    rw [hagree]
    split
    · rename_i hbad
      simp only [Option.isSome_none, Bool.false_eq_true, false_iff]
      rintro ⟨m, hm, _⟩
      simp [hbad] at hm
    · rename_i requested hreq
      obtain ⟨_, _, hok⟩ := readMaskFile_ok hreq
      rw [readMaskFile_denotes_iff hreq, ← requested_matches_iff hok hbound]
      split <;> simp_all
  · rename_i hother
    simp [hset, requestAgrees_unset hother]

theorem bindMaskEnv_denotes {o : OpenEnv} {sidecar : Bytes} {bound : Mask} {env env' : Option Bytes}
    (hne : sidecar ≠ []) (hbound : readMaskFile s.hdr (o.files sidecar) = some bound)
    (h : bindMaskEnv s o sidecar bound env = some env') :
    ∃ path, env' = some path ∧ path ≠ [] ∧
      FileDenotes s.hdr o.files path (bound.pairs s.hdr) := by
  unfold bindMaskEnv at h
  split at h
  · rename_i c path
    split at h
    · simp at h
    · rename_i requested hreq
      obtain ⟨_, _, hok⟩ := readMaskFile_ok hreq
      obtain ⟨_, _, hok'⟩ := readMaskFile_ok hbound
      split at h
      · simp at h
      · rename_i hmatch
        obtain rfl := Option.some.inj h
        exact ⟨c :: path, rfl, by simp, requested, hreq, (requested_matches_iff hok hok').mp hmatch⟩
  · split at h
    · obtain rfl := Option.some.inj h
      exact ⟨sidecar, rfl, hne, bound, hbound, rfl⟩
    · simp at h

theorem bindSparseQ8Mask_isSome_iff {o : OpenEnv} (hdtype : s.hdr.dtype = dtypeQ8Row)
    (halloc : o.allocOk = true) (hset : o.setenvOk = true) (idxPath : Bytes)
    (env : Option Bytes) :
    (bindSparseQ8Mask s o idxPath env).isSome ↔
      (absentPairs s = ∅ ∧ o.files (maskSidecarPath idxPath) = none) ∨
      (absentPairs s ≠ ∅ ∧
        FileDenotes s.hdr o.files (maskSidecarPath idxPath) (absentPairs s) ∧
        RequestAgrees s.hdr o.files env (absentPairs s)) := by
  unfold bindSparseQ8Mask
  rw [if_neg (not_not.mpr hdtype), if_neg (by simp [halloc])]
  dsimp only
  by_cases hsparse : absentPairs s = ∅
  · rw [if_pos (by rw [sparse_iff]; simpa using hsparse)]
    cases hside : o.files (maskSidecarPath idxPath) with
    | none => simp [hsparse]
    | some text => simp [hsparse]
  · rw [if_neg (by rw [sparse_iff]; simpa using hsparse)]
    simp only [hsparse, false_and, false_or, ne_eq, not_false_eq_true, true_and]
    split
    · rename_i hbad
      simp only [Option.isSome_none, Bool.false_eq_true, false_iff, not_and]
      rintro ⟨m, hm, _⟩
      simp [hbad] at hm
    · rename_i bound hbound
      obtain ⟨_, _, hok⟩ := readMaskFile_ok hbound
      rw [readMaskFile_denotes_iff hbound]
      split
      · rename_i hmis
        simp only [Option.isSome_none, Bool.false_eq_true, false_iff, not_and]
        intro heq
        simp [(maskMismatch_eq_false_iff hok).mpr heq] at hmis
      · rename_i hmatch
        have heq := (maskMismatch_eq_false_iff hok).mp (by simpa using hmatch)
        rw [bindMaskEnv_isSome_iff env hset hok, heq]
        simp

/-- After binding a sparse store the variable denotes its absent pairs. -/
theorem bindSparseQ8Mask_denotes {o : OpenEnv} (hdtype : s.hdr.dtype = dtypeQ8Row)
    {idxPath : Bytes} {env env' : Option Bytes} (hsparse : absentPairs s ≠ ∅)
    (h : bindSparseQ8Mask s o idxPath env = some env') :
    ∃ path, env' = some path ∧ path ≠ [] ∧
      FileDenotes s.hdr o.files path (absentPairs s) := by
  unfold bindSparseQ8Mask at h
  rw [if_neg (not_not.mpr hdtype)] at h
  split at h
  · simp at h
  dsimp only at h
  rw [if_neg (by rw [sparse_iff]; simpa using hsparse)] at h
  split at h
  · simp at h
  · rename_i bound hbound
    obtain ⟨_, _, hok⟩ := readMaskFile_ok hbound
    split at h
    · simp at h
    · rename_i hmatch
      have heq := (maskMismatch_eq_false_iff hok).mp (by simpa using hmatch)
      rw [← heq]
      exact bindMaskEnv_denotes (maskSidecarPath_ne_nil idxPath) hbound h

/-- Binding a Q8 store of an accepted index succeeds for a full store without
sidecar, and for a sparse one whose sidecar and request denote the absent pairs. -/
theorem bindSparseQ8Mask_iff {o : OpenEnv} {idxPath file : Bytes} {s : ExpertStore}
    (hfile : o.files idxPath = some file) (hread : readIndex file o.allocOk = some s)
    (hdtype : s.hdr.dtype = dtypeQ8Row) (halloc : o.allocOk = true) (hset : o.setenvOk = true)
    (env : Option Bytes) :
    ((bindSparseQ8Mask s o idxPath env).isSome ↔
      (absentPairs s = ∅ ∧ o.files (maskSidecarPath idxPath) = none) ∨
      (absentPairs s ≠ ∅ ∧
        FileDenotes s.hdr o.files (maskSidecarPath idxPath) (absentPairs s) ∧
        RequestAgrees s.hdr o.files env (absentPairs s))) ∧
    (∀ env', bindSparseQ8Mask s o idxPath env = some env' → absentPairs s ≠ ∅ →
      ∃ path, env' = some path ∧ path ≠ [] ∧ FileDenotes s.hdr o.files path (absentPairs s)) ∧
    (bindSparseQ8Mask s o idxPath env = none → ∀ preferDirectIo,
      kvlExpertStoreOpen o idxPath preferDirectIo env = ⟨-1, emptyStore, env⟩) := by
  refine ⟨bindSparseQ8Mask_isSome_iff hdtype halloc hset idxPath env,
    fun env' henv hsparse => bindSparseQ8Mask_denotes hdtype hsparse henv, ?_⟩
  intro hfail preferDirectIo
  simp [kvlExpertStoreOpen, hfile, hread, hfail]

end Spec

/-- Two layers of two experts, of which only expert 0 of layer 1 has a record. -/
def sparseHeader : ExpertIndexHeader := ⟨expertMagic, 1, 4096, 2, 2, 1, dtypeQ8Row, 48, 4096⟩

def sparseIndex : Bytes :=
  expertMagic ++ toLE 4 1 ++ toLE 4 4096 ++ toLE 4 2 ++ toLE 4 2 ++ toLE 4 1 ++ toLE 4 3 ++
    toLE 8 48 ++ toLE 8 4096 ++
    toLE 4 1 ++ toLE 4 0 ++ toLE 8 0 ++ toLE 8 4096 ++ toLE 8 3000 ++
    toLE 8 0 ++ toLE 8 1000 ++ toLE 8 1000 ++ toLE 8 1000 ++ toLE 8 2000 ++ toLE 8 1000

def sparseStore : ExpertStore where
  fd := -1
  directIo := false
  hdr := sparseHeader
  records := [⟨1, 0, 0, 4096, 3000, 0, 1000, 1000, 1000, 2000, 1000⟩]
  ggufQ8Sources := none
  recordOf := Function.update (fun _ => -1) 2 0

/-- The index at the path `a`, and beside it the mask that lists expert 1 of layer 1. -/
def sparseEnv : OpenEnv where
  files path :=
    if path = [97] then some sparseIndex
    else if path = 97 :: maskSuffix then some [49, 32, 49, 10]
    else none
  allocOk := true
  setenvOk := true
  openData _ := 3

theorem readIndex_sparse : readIndex sparseIndex true = some sparseStore := by
  refine @readIndex_eq_some _ [] _ _ _ _ (by decide +kernel) (by decide +kernel) (by decide)
    (by decide) (by decide) (by decide +kernel) (if_neg (by decide)) ?_
  simp only [enterRecords, enterRecord]
  rw [if_neg (by decide), if_neg (by decide)]
  rfl

theorem bindSparseQ8Mask_sparse :
    absentPairs sparseStore ≠ ∅ ∧
      FileDenotes sparseHeader sparseEnv.files (97 :: maskSuffix) (absentPairs sparseStore) := by
  have hbind : (bindSparseQ8Mask sparseStore sparseEnv [97] none).isSome = true := by
    decide +kernel
  have hiff := (@bindSparseQ8Mask_iff sparseEnv [97] sparseIndex sparseStore rfl readIndex_sparse
    rfl rfl rfl none).1
  rcases hiff.mp hbind with ⟨_, hside⟩ | ⟨hsparse, hside, _⟩
  · exact absurd hside (by decide +kernel)
  · exact ⟨hsparse, hside⟩

end Kvl

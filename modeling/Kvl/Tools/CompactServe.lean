import Kvl.Store.GgufLoad
import Kvl.Tools.CompactOpen

/-!
# What a compacted store serves

A runtime that opens the source and the compacted store finds the kept experts in both, and
loads the same bytes. Compacting a compacted store is compacting once.
-/

namespace Kvl.Compact

set_option autoImplicit false

open PyText (Str)
open Extents (slice slice_inside)

/-! ### Finding a record -/

theorem recordAt_some_iff {s : ExpertStore} (hok : TableOk s.hdr s.records s.recordOf)
    (hlt : ∀ k, s.recordOf k < 2 ^ 31) {layer expert i : Nat}
    (he : expert < s.hdr.nExperts.toNat) :
    s.recordAt (maskCell s.hdr layer expert) = some i →
      (s.records.map keyOf)[i]? = some (layer, expert) ∧ i < 2 ^ 31 := by
  intro h
  unfold ExpertStore.recordAt at h
  split at h
  · cases h
  rename_i hpresent
  obtain ⟨k, r, hr, hrec, hcell⟩ := hok.entry _ (Int.not_lt.mp hpresent)
  have hids := (hok.ids r (List.mem_of_getElem? hr)).2
  obtain ⟨hl, he'⟩ := maskCell_inj (UInt32.lt_iff_toNat_lt.mp hids) he hcell
  have hsmall := hlt (maskCell s.hdr layer expert)
  have hi := Option.some.inj h
  obtain rfl : k = i := by omega
  refine ⟨?_, by omega⟩
  rw [List.getElem?_map, hr, Option.map_some]
  exact congrArg some (Prod.ext hl he')

theorem recordAt_of_key {s : ExpertStore} (hok : TableOk s.hdr s.records s.recordOf)
    {layer expert i : Nat} (hkey : (s.records.map keyOf)[i]? = some (layer, expert))
    (hi : i < 2 ^ 31) : s.recordAt (maskCell s.hdr layer expert) = some i := by
  rw [List.getElem?_map, Option.map_eq_some_iff] at hkey
  obtain ⟨r, hr, hkey⟩ := hkey
  have hfound := hok.found i r hr hi
  have hcell : recordCell s.hdr r = maskCell s.hdr layer expert := by
    rw [← (Prod.mk.inj hkey).1, ← (Prod.mk.inj hkey).2]
    rfl
  rw [hcell] at hfound
  unfold ExpertStore.recordAt
  rw [hfound, if_neg (Int.not_lt.mpr (Int.natCast_nonneg i)), Int.toNat_natCast]

/-- What a filter keeps moves to the front. -/
theorem filter_getElem? {α : Type*} {p : α → Bool} {xs : List α} {i : Nat} {x : α}
    (h : xs[i]? = some x) (hp : p x = true) : ∃ j ≤ i, (xs.filter p)[j]? = some x := by
  obtain ⟨hi, hx⟩ := List.getElem?_eq_some_iff.mp h
  have hsplit : xs = xs.take i ++ x :: xs.drop (i + 1) := by
    rw [← hx, List.cons_getElem_drop_succ, List.take_append_drop]
  refine ⟨((xs.take i).filter p).length, ?_, ?_⟩
  · exact (List.length_filter_le _ _).trans (List.length_take_le _ _)
  · have hfilter : xs.filter p = (xs.take i).filter p ++ x :: (xs.drop (i + 1)).filter p := by
      conv_lhs => rw [hsplit, List.filter_append, List.filter_cons_of_pos hp]
    rw [hfilter, List.getElem?_append_right (Nat.le_refl _), Nat.sub_self, List.getElem?_cons_zero]

/-- The runtime and the tool read the same records. -/
theorem readIndex_records {raw : Bytes} {m : Meta} {s : ExpertStore}
    (hm : readIndexQ8 raw = some m) (hs : readIndex raw true = some s) :
    s.hdr = m.header ∧ s.records = m.records := by
  have hoffset := (readIndexQ8_ok hm).shape.2.2
  unfold readIndexQ8 at hm
  split at hm
  · cases hm
  dsimp only at hm
  split at hm
  · cases hm
  split at hm
  · cases hm
  split at hm
  · cases hm
  obtain ⟨records, hread, hcheck⟩ := Option.bind_eq_some_iff.mp hm
  split at hcheck
  · obtain rfl := Option.some.inj hcheck
    dsimp only at hoffset
    unfold readIndex at hs
    split at hs
    · cases hs
    dsimp only at hs
    split at hs
    · cases hs
    split at hs
    · cases hs
    split at hs
    · cases hs
    split at hs
    · cases hs
    rw [hoffset, hread] at hs
    dsimp only at hs
    split at hs
    · cases hs
    split at hs
    · cases hs
    obtain rfl := Option.some.inj hs
    exact ⟨rfl, rfl⟩
  · cases hcheck

theorem readIndex_lt {raw : Bytes} {s : ExpertStore} (h : readIndex raw true = some s) :
    ∀ k, s.recordOf k < 2 ^ 31 :=
  enterRecords_lt (fun _ => by decide) (Merge.readIndex_tool h).2

/-! ### Loading it -/

/-- Records that differ in nothing but the offset of their bytes are read the same from either
file. -/
theorem SameRecord.pread {src dst : Bytes} {r r' : ExpertRecord} (h : SameRecord src dst r r')
    (hpos : 0 < r.readBytes.toNat) (m : SlotMemory) :
    kvlPread dst r'.fileOffset r'.readBytes 0 m = kvlPread src r.fileOffset r.readBytes 0 m := by
  have hsize : r'.readBytes = r.readBytes := by
    rw [← h.fields]
  have hcomplete := h.complete
  rw [← h.bytes] at hcomplete
  have hcount (file : Bytes) (off : UInt64) (hin : off.toNat + r.readBytes.toNat ≤ file.length) :
      preadCount file off r.readBytes = r.readBytes := by
    unfold preadCount
    rw [Nat.min_eq_left (by omega), UInt64.ofNat_toNat]
  have hbyte (i : Nat) (hi : i < r.readBytes.toNat) :
      dst.getD (r'.fileOffset.toNat + i) 0 = src.getD (r.fileOffset.toNat + i) 0 := by
    have hget := congrArg (fun bytes => bytes[i]?) h.bytes
    simp only [slice, List.getElem?_take, hi, if_true, List.getElem?_drop] at hget
    rw [List.getD_eq_getElem?_getD, List.getD_eq_getElem?_getD, hget]
  unfold kvlPread
  rw [hsize, hcount dst _ (slice_inside hcomplete hpos), hcount src _ (slice_inside h.complete hpos)]
  dsimp only
  congr 1
  funext i
  unfold preadInto
  split
  · rename_i hi
    have hzero : (0 : UInt64).toNat = 0 := rfl
    have hlt := hi.2
    rw [hzero, Nat.zero_add] at hlt
    rw [hzero, Nat.sub_zero]
    exact hbyte i hlt
  · rfl

/-- Packed stores load such records the same. -/
theorem SameRecord.load {srcBin dstBin : Bytes} {src dst : ExpertStore} {i j : Nat}
    (h : SameRecord srcBin dstBin (src.record i) (dst.record j))
    (hpos : 0 < (src.record i).readBytes.toNat) (hsrc : src.hdr.dtype = dtypeQ8Row)
    (hdst : dst.hdr.dtype = dtypeQ8Row) (fd : Int) (m : SlotMemory) :
    kvlExpertLoadInto { dst with fd := fd } dstBin j m =
      kvlExpertLoadInto { src with fd := fd } srcBin i m := by
  have hpacked : dst.hdr.dtype ≠ dtypeGgufQ8 ∧ src.hdr.dtype ≠ dtypeGgufQ8 := by
    rw [hsrc, hdst]
    exact ⟨by decide, by decide⟩
  unfold kvlExpertLoadInto
  dsimp only
  rw [if_pos hpacked.1, if_pos hpacked.2]
  split
  · rfl
  · exact congrArg (fun read => (some read.1, read.2)) (h.pread hpos m)

/-- A runtime that has opened both stores finds exactly the kept experts in the compacted one, with
the records of the source but for the offset, and loads the same bytes. -/
theorem compacted_serves {srcBin srcIdx : Bytes} {mask : Str} {allowMissing : Bool} {out : Output}
    {src dst : ExpertStore} (h : compactStore srcBin srcIdx mask allowMissing = some out)
    (hsrc : readIndex srcIdx true = some src) (hdst : readIndex out.idx true = some dst)
    (layer expert : Int) :
    ∃ disabled, readMask mask = some disabled ∧
      (∀ j, kvlExpertFind dst layer expert = some j →
        (layer.toNat, expert.toNat) ∈ src.records.map keyOf ∧
          (layer.toNat, expert.toNat) ∉ disabled) ∧
      ∀ i, kvlExpertFind src layer expert = some i → (layer.toNat, expert.toNat) ∉ disabled →
        ∃ j, kvlExpertFind dst layer expert = some j ∧
          { dst.record j with fileOffset := (src.record i).fileOffset } = src.record i ∧
          ∀ (fd : Int) (m : SlotMemory), kvlExpertLoadInto { dst with fd := fd } out.bin j m =
            kvlExpertLoadInto { src with fd := fd } srcBin i m := by
  obtain ⟨m, disabled, new, hm, hmask, _, hnew⟩ := compactStore_compacted h
  have hok := readIndexQ8_ok hm
  obtain ⟨hsrcHdr, hsrcRecords⟩ := readIndex_records hm hsrc
  obtain ⟨hdstHdr, hdstRecords⟩ := readIndex_records (hnew.readIndexQ8_eq hok) hdst
  have hsrcTable := (readIndex_ok hsrc).table
  have hdstTable := (readIndex_ok hdst).table
  have hshape : dst.hdr.nLayers = src.hdr.nLayers ∧ dst.hdr.nExperts = src.hdr.nExperts := by
    rw [hdstHdr, hsrcHdr, hnew.header]
    exact ⟨rfl, rfl⟩
  have hrange : idsInRange dst layer expert ↔ idsInRange src layer expert := by
    unfold idsInRange ExpertStore.nLayers ExpertStore.nExperts
    rw [hshape.1, hshape.2]
  have hkeys : dst.records.map keyOf = keptIds m disabled := by
    rw [hdstRecords]
    exact hnew.ids_eq
  have hkeys' : src.records.map keyOf = m.ids := by rw [hsrcRecords, Meta.ids]
  have hlt (s : ExpertStore) (hin : idsInRange s layer expert) :
      expert.toNat < s.hdr.nExperts.toNat := by
    have hle := cInt_le s.nExperts
    obtain ⟨_, he, _, het⟩ := hin
    unfold ExpertStore.nExperts at hle het
    omega
  refine ⟨disabled, hmask, fun j hj => ?_, fun i hi hkept => ?_⟩
  · unfold kvlExpertFind at hj
    split at hj
    · rename_i hin
      obtain ⟨hget, _⟩ := recordAt_some_iff hdstTable (readIndex_lt hdst) (hlt dst hin) hj
      rw [hkeys] at hget
      rw [hkeys']
      exact mem_keptIds.mp (List.mem_of_getElem? hget)
    · cases hj
  · unfold kvlExpertFind at hi
    split at hi
    · rename_i hin
      obtain ⟨hget, hsmall⟩ := recordAt_some_iff hsrcTable (readIndex_lt hsrc) (hlt src hin) hi
      have hkeyAt := hget
      rw [hkeys'] at hget
      obtain ⟨j, hj, hjkey⟩ := @filter_getElem? _ (fun key => decide (key ∉ disabled)) _ _ _ hget
        (decide_eq_true hkept)
      have hjkey : (dst.records.map keyOf)[j]? = some (layer.toNat, expert.toNat) := by
        rw [hkeys]
        exact hjkey
      have hfind : kvlExpertFind dst layer expert = some j := by
        unfold kvlExpertFind
        rw [if_pos (hrange.mpr hin)]
        exact recordAt_of_key hdstTable hjkey (Nat.lt_of_le_of_lt hj hsmall)
      obtain ⟨r, hr, hrkey⟩ := Option.map_eq_some_iff.mp (List.getElem?_map.symm.trans hkeyAt)
      obtain ⟨r', hr', hrkey'⟩ := Option.map_eq_some_iff.mp (List.getElem?_map.symm.trans hjkey)
      obtain ⟨r₀, hr₀, hrel⟩ := exists_left hnew.records r' (hdstRecords ▸ List.mem_of_getElem? hr')
      have hsame : r₀ = r := List.inj_on_of_nodup_map hok.distinct (List.mem_of_mem_filter hr₀)
        (hsrcRecords ▸ List.mem_of_getElem? hr) (by rw [← hrel.keyOf_eq, hrkey, hrkey'])
      rw [hsame] at hrel
      have hrecord : src.record i = r := by rw [ExpertStore.record, List.getD_eq_getElem?_getD, hr]; rfl
      have hrecord' : dst.record j = r' := by
        rw [ExpertStore.record, List.getD_eq_getElem?_getD, hr']
        rfl
      have hpos := (hok.records r (hsrcRecords ▸ List.mem_of_getElem? hr)).bytes.1
      rw [← hrecord, ← hrecord'] at hrel
      rw [← hrecord] at hpos
      refine ⟨j, hfind, hrel.fields, fun fd m => hrel.sameRecord.load hpos ?_ ?_ fd m⟩
      · rw [hsrcHdr, hok.shape.2.1]
      · rw [hdstHdr, (hnew.metaOk hok).shape.2.1]
    · cases hi

theorem pair_opened : ∃ src dst, readIndex (pairIdx 2) true = some src ∧
    readIndex (pairOut 2).idx true = some dst ∧ kvlExpertFind src 0 0 = some 0 ∧
      kvlExpertFind dst 0 0 = some 0 := by
  have hok : MetaOk (pairMeta 2) := pairMeta_ok (by decide)
  have hread : readIndexQ8 (pairIdx 2) = some (pairMeta 2) := readIndexQ8_encode hok
  obtain ⟨table, _, hsrc⟩ := @readIndex_encodeIndex (pairMeta 2).header (pairMeta 2).records [] none
    ⟨rfl, rfl, rfl, rfl, rfl⟩ (List.cons_ne_nil _ _)
    ⟨fun r hr => (hok.records r hr).ids,
      Merge.recordCell_nodup (fun r hr => (hok.records r hr).ids.2) hok.distinct⟩
    (if_neg (by decide))
  obtain ⟨m, disabled, new, hm, hmask, _, hnew⟩ :=
    compactStore_compacted (@pair_compacted 2 (by decide) false)
  obtain rfl := Option.some.inj (hread.symm.trans hm)
  obtain rfl := Option.some.inj (pairMask_read.symm.trans hmask)
  obtain ⟨dst, hdst, _⟩ := hnew.readIndex_some hok (by decide)
  obtain ⟨hhdr, hrecords⟩ := readIndex_records (hnew.readIndexQ8_eq hok) hdst
  have hkeys : (dst.records.map keyOf)[0]? = some (0, 0) := by
    rw [hrecords]
    exact congrArg (fun ids => ids[0]?) hnew.ids_eq
  have hshape : dst.hdr.nLayers = 1 ∧ dst.hdr.nExperts = 2 := by
    rw [hhdr, hnew.header]
    exact ⟨rfl, rfl⟩
  have hfind (s : ExpertStore) (hs : s.hdr.nLayers = 1 ∧ s.hdr.nExperts = 2)
      (htable : TableOk s.hdr s.records s.recordOf)
      (hkey : (s.records.map keyOf)[0]? = some (0, 0)) : kvlExpertFind s 0 0 = some 0 := by
    have hrange : idsInRange s 0 0 := by
      unfold idsInRange ExpertStore.nLayers ExpertStore.nExperts
      rw [hs.1, hs.2]
      decide
    unfold kvlExpertFind
    rw [if_pos hrange]
    exact recordAt_of_key htable hkey (by decide)
  exact ⟨_, dst, hsrc, hdst, hfind _ ⟨rfl, rfl⟩ (readIndex_ok hsrc).table rfl,
    hfind dst hshape (readIndex_ok hdst).table hkeys⟩

theorem compacted_serves_pair : ∃ src dst j, readIndex (pairIdx 2) true = some src ∧
    readIndex (pairOut 2).idx true = some dst ∧ kvlExpertFind dst 0 0 = some j ∧
      ∀ (fd : Int) (m : SlotMemory), kvlExpertLoadInto { dst with fd := fd } (pairOut 2).bin j m =
        kvlExpertLoadInto { src with fd := fd } pairBin 0 m := by
  obtain ⟨src, dst, hsrc, hdst, hfind, _⟩ := pair_opened
  obtain ⟨disabled, hmask, _, hserves⟩ :=
    compacted_serves (@pair_compacted 2 (by decide) false) hsrc hdst 0 0
  obtain rfl := Option.some.inj (pairMask_read.symm.trans hmask)
  obtain ⟨j, hj, _, hload⟩ := hserves 0 hfind (by decide)
  exact ⟨src, dst, j, hsrc, hdst, hj, hload⟩

/-! ### Compacting twice -/

/-- A kept record at the end of the output. -/
def place (src : Bytes) (k : Kept) (r : ExpertRecord) : Kept :=
  ⟨Extents.pad 0 4096 k.dst ++ slice src r.fileOffset.toNat r.readBytes.toNat,
    k.records ++ [{ r with fileOffset := UInt64.ofNat (Extents.pad 0 4096 k.dst).length }]⟩

def placed (src : Bytes) (disabled : List (Nat × Nat)) (m : Meta) : Kept :=
  (keeps disabled m.records).foldl (place src) ⟨[], []⟩

def Complete (src : Bytes) (r : ExpertRecord) : Prop :=
  (slice src r.fileOffset.toNat r.readBytes.toNat).length = r.readBytes.toNat

theorem keepRecord_eq (src : Bytes) (disabled : List (Nat × Nat)) (k : Kept) (r : ExpertRecord)
    [Decidable (Complete src r)] :
    keepRecord src disabled k r =
      if keyOf r ∈ disabled then some k
      else if Complete src r then some (place src k r) else none := by
  unfold keepRecord
  dsimp only
  rw [copyExact, copyLoop_eq]
  by_cases hdisabled : keyOf r ∈ disabled
  · rw [if_pos hdisabled, if_pos hdisabled]
  rw [if_neg hdisabled, if_neg hdisabled]
  by_cases hfull : Complete src r
  · have hlength : (slice src r.fileOffset.toNat r.readBytes.toNat).length = r.readBytes.toNat := hfull
    rw [if_pos hfull, if_pos hlength]
    rfl
  · have hlength : (slice src r.fileOffset.toNat r.readBytes.toNat).length ≠ r.readBytes.toNat := hfull
    rw [if_neg hfull, if_neg hlength]
    rfl

theorem keepRecords_iff {src : Bytes} {disabled : List (Nat × Nat)} {records : List ExpertRecord}
    {k k' : Kept} : records.foldlM (keepRecord src disabled) k = some k' ↔
      (∀ r ∈ keeps disabled records, Complete src r) ∧
        k' = (keeps disabled records).foldl (place src) k := by
  classical
  induction records generalizing k with
  | nil => simp [keeps, eq_comm]
  | cons r records ih =>
    rw [List.foldlM_cons, keepRecord_eq]
    by_cases hdisabled : keyOf r ∈ disabled
    · have hkeeps : keeps disabled (r :: records) = keeps disabled records :=
        List.filter_cons_of_neg (by simpa using hdisabled)
      rw [if_pos hdisabled, hkeeps]
      exact ih
    · have hkeeps : keeps disabled (r :: records) = r :: keeps disabled records :=
        List.filter_cons_of_pos (by simpa using hdisabled)
      rw [if_neg hdisabled, hkeeps, List.forall_mem_cons, List.foldl_cons]
      by_cases hfull : Complete src r
      · rw [if_pos hfull]
        exact ih.trans ⟨fun h => ⟨⟨hfull, h.1⟩, h.2⟩, fun h => ⟨h.1.2, h.2⟩⟩
      · rw [if_neg hfull]
        exact ⟨fun h => (by cases h), fun h => absurd h.1.1 hfull⟩

/-- The output of a compaction as a function of what was read. -/
def outputOf (srcBin : Bytes) (disabled : List (Nat × Nat)) (m : Meta) : Output where
  bin := (placed srcBin disabled m).dst
  idx := encodeIndex (compactHeader m.header (placed srcBin disabled m).records.length
    (placed srcBin disabled m).dst.length) (placed srcBin disabled m).records []
  sidecar := maskSidecar disabled

/-- When `compact_store` returns. -/
structure Compacts (srcBin : Bytes) (disabled : List (Nat × Nat)) (allowMissing : Bool) (m : Meta) :
    Prop where
  inRange : ∀ key ∈ disabled, key.1 < m.header.nLayers.toNat ∧ key.2 < m.header.nExperts.toNat
  listed : allowMissing = false → ∀ key ∈ disabled, key ∈ m.ids
  size : m.header.dataFileBytes.toNat = srcBin.length
  complete : ∀ r ∈ keeps disabled m.records, Complete srcBin r
  fits : (placed srcBin disabled m).dst.length < 2 ^ 64

theorem compactStore_iff {srcBin srcIdx : Bytes} {mask : Str} {allowMissing : Bool} {out : Output} :
    compactStore srcBin srcIdx mask allowMissing = some out ↔
      ∃ m disabled, readIndexQ8 srcIdx = some m ∧ readMask mask = some disabled ∧
        Compacts srcBin disabled allowMissing m ∧ out = outputOf srcBin disabled m := by
  constructor
  · intro h
    obtain ⟨m, hm, h⟩ := Option.bind_eq_some_iff.mp h
    obtain ⟨disabled, hmask, h⟩ := Option.bind_eq_some_iff.mp h
    split at h
    · cases h
    rename_i hrange
    split at h
    · cases h
    rename_i hmissing
    split at h
    · cases h
    rename_i hsize
    obtain ⟨k, hrun, h⟩ := Option.bind_eq_some_iff.mp h
    split at h
    · cases h
    rename_i hlt
    obtain ⟨hcomplete, rfl⟩ := keepRecords_iff.mp hrun
    simp only [List.any_eq_true, decide_eq_true_eq, not_exists, not_and, not_or, Nat.not_le] at hrange
    refine ⟨m, disabled, hm, hmask, ⟨hrange, ?_, not_not.mp hsize, hcomplete,
      Nat.lt_of_not_le hlt⟩, (Option.some.inj h).symm⟩
    rintro rfl key hkey
    by_contra habsent
    exact hmissing ⟨List.any_eq_true.mpr ⟨key, hkey, decide_eq_true habsent⟩, Bool.false_ne_true⟩
  · rintro ⟨m, disabled, hm, hmask, hok, rfl⟩
    have hrun := keepRecords_iff.mpr ⟨hok.complete, @rfl _ (placed srcBin disabled m)⟩
    unfold compactStore
    rw [hm, Option.bind_some, hmask, Option.bind_some, if_neg, if_neg, if_neg (not_not.mpr hok.size),
      hrun, Option.bind_some, if_neg (Nat.not_le_of_lt hok.fits)]
    · rfl
    · rintro ⟨hany, hallow⟩
      obtain ⟨key, hkey, habsent⟩ := List.any_eq_true.mp hany
      exact of_decide_eq_true habsent (hok.listed (by simpa using hallow) key hkey)
    · intro hany
      obtain ⟨key, hkey, hout⟩ := List.any_eq_true.mp hany
      have := hok.inRange key hkey
      have := of_decide_eq_true hout
      omega

/-! Records that agree but for the offset are placed alike. -/

theorem place_congr {src src' : Bytes} {k : Kept} {r r' : ExpertRecord}
    (h : Relocated src src' r r') : place src' k r' = place src k r := by
  have hsize : r'.readBytes = r.readBytes := by
    rw [← h.fields]
  have hfields (off : UInt64) : { r' with fileOffset := off } = { r with fileOffset := off } := by
    rw [← h.fields]
  unfold place
  rw [hfields, hsize, h.copied]

theorem foldl_place_congr {src src' : Bytes} {rs rs' : List ExpertRecord}
    (h : List.Forall₂ (Relocated src src') rs rs') (k : Kept) :
    rs'.foldl (place src') k = rs.foldl (place src) k := by
  induction h generalizing k with
  | nil => rfl
  | cons hfirst _ ih =>
    rw [List.foldl_cons, List.foldl_cons, place_congr hfirst]
    exact ih _

theorem keeps_relocated {src src' : Bytes} {rs rs' : List ExpertRecord}
    (h : List.Forall₂ (Relocated src src') rs rs') (disabled : List (Nat × Nat)) :
    List.Forall₂ (Relocated src src') (keeps disabled rs) (keeps disabled rs') := by
  induction h with
  | nil => exact .nil
  | @cons r r' rs rs' hfirst _ ih =>
    unfold keeps at ih ⊢
    by_cases hdisabled : keyOf r ∈ disabled
    · have hdisabled' : keyOf r' ∈ disabled := hfirst.keyOf_eq ▸ hdisabled
      rw [List.filter_cons_of_neg (by simpa using hdisabled),
        List.filter_cons_of_neg (by simpa using hdisabled')]
      exact ih
    · have hdisabled' : keyOf r' ∉ disabled := hfirst.keyOf_eq ▸ hdisabled
      rw [List.filter_cons_of_pos (by simpa using hdisabled),
        List.filter_cons_of_pos (by simpa using hdisabled')]
      exact .cons hfirst ih

theorem keeps_keeps {a b c : List (Nat × Nat)} (h : ∀ key, key ∈ c ↔ key ∈ a ∨ key ∈ b)
    (records : List ExpertRecord) : keeps b (keeps a records) = keeps c records := by
  unfold keeps
  rw [List.filter_filter]
  apply List.filter_congr
  intro r _
  rw [Bool.eq_iff_iff, Bool.and_eq_true, decide_eq_true_iff, decide_eq_true_iff, decide_eq_true_iff,
    h, not_or]
  exact and_comm

/-- Compacting a compacted store by a second mask gives the data file and the index that compacting
the source by both masks at once gives. -/
theorem compact_twice {srcBin srcIdx : Bytes} {first second both : Str} {a b c : List (Nat × Nat)}
    {allowFirst allowSecond : Bool} {one two : Output}
    (hone : compactStore srcBin srcIdx first allowFirst = some one)
    (htwo : compactStore one.bin one.idx second allowSecond = some two)
    (hfirst : readMask first = some a) (hsecond : readMask second = some b)
    (hboth : readMask both = some c) (hunion : ∀ key, key ∈ c ↔ key ∈ a ∨ key ∈ b) :
    ∃ out, compactStore srcBin srcIdx both (allowFirst || allowSecond) = some out ∧
      out.bin = two.bin ∧ out.idx = two.idx := by
  obtain ⟨m, a', new, hm, hmask, _, hnew⟩ := compactStore_compacted hone
  obtain rfl := Option.some.inj (hfirst.symm.trans hmask)
  obtain ⟨m', a', hm', hmask', honeOk, _⟩ := compactStore_iff.mp hone
  obtain rfl := Option.some.inj (hm.symm.trans hm')
  obtain rfl := Option.some.inj (hmask.symm.trans hmask')
  obtain ⟨new', b', hnew', hmask'', htwoOk, rfl⟩ := compactStore_iff.mp htwo
  obtain rfl := Option.some.inj ((hnew.readIndexQ8_eq (readIndexQ8_ok hm)).symm.trans hnew')
  obtain rfl := Option.some.inj (hsecond.symm.trans hmask'')
  have hrelocated : List.Forall₂ (Relocated srcBin one.bin) (keeps c m.records)
      (keeps b new.records) := by
    rw [← keeps_keeps hunion]
    exact keeps_relocated hnew.records b
  have hplaced : placed one.bin b new = placed srcBin c m := foldl_place_congr hrelocated _
  have hshape : new.header.nLayers = m.header.nLayers ∧ new.header.nExperts = m.header.nExperts := by
    rw [hnew.header]
    exact ⟨rfl, rfl⟩
  have hcompacts : Compacts srcBin c (allowFirst || allowSecond) m := by
    refine ⟨fun key hkey => ?_, fun hallow key hkey => ?_, honeOk.size, fun r hr => ?_,
      hplaced ▸ htwoOk.fits⟩
    · cases (hunion key).mp hkey with
      | inl h => exact honeOk.inRange key h
      | inr h => exact hshape.1 ▸ hshape.2 ▸ htwoOk.inRange key h
    · obtain ⟨hfalse, hfalse'⟩ := Bool.or_eq_false_iff.mp hallow
      cases (hunion key).mp hkey with
      | inl h => exact honeOk.listed hfalse key h
      | inr h =>
        have hmem := htwoOk.listed hfalse' key h
        rw [hnew.ids_eq] at hmem
        exact List.mem_of_mem_filter hmem
    · rw [← keeps_keeps hunion] at hr
      exact honeOk.complete r (List.mem_of_mem_filter hr)
  refine ⟨_, compactStore_iff.mpr ⟨m, c, hm, hboth, hcompacts, rfl⟩, ?_, ?_⟩
  · exact congrArg Kept.dst hplaced.symm
  · unfold outputOf compactHeader
    dsimp only
    rw [hplaced, hshape.1, hshape.2]

theorem compact_twice_pair : ∃ two out,
    compactStore (pairOut 2).bin (pairOut 2).idx (PyText.text "0 0\n") false = some two ∧
      compactStore pairBin (pairIdx 2) (PyText.text "0 0\n0 1\n") false = some out ∧
      out.bin = two.bin ∧ out.idx = two.idx := by
  have hok : MetaOk (pairMeta 2) := pairMeta_ok (by decide)
  have hone := @pair_compacted 2 (by decide) false
  obtain ⟨m, disabled, new, hm, hmask, _, hnew⟩ := compactStore_compacted hone
  obtain rfl := Option.some.inj ((readIndexQ8_encode hok).symm.trans hm)
  obtain rfl := Option.some.inj (pairMask_read.symm.trans hmask)
  have hids : new.ids = [(0, 0)] := hnew.ids_eq
  have hempty : keeps [(0, 0)] new.records = [] := by
    apply List.filter_eq_nil_iff.mpr
    intro r hr
    have hkey : keyOf r ∈ new.ids := List.mem_map_of_mem hr
    rw [hids] at hkey
    simpa using hkey
  have hsecond : readMask (PyText.text "0 0\n") = some [(0, 0)] := by decide +kernel
  have hboth : readMask (PyText.text "0 0\n0 1\n") = some [(0, 0), (0, 1)] := by decide +kernel
  have hplaced : placed (pairOut 2).bin [(0, 0)] new = ⟨[], []⟩ := by
    rw [placed, hempty]
    rfl
  have hunion (key : Nat × Nat) :
      key ∈ [(0, 0), (0, 1)] ↔ key ∈ [((0 : Nat), (1 : Nat))] ∨ key ∈ [((0 : Nat), (0 : Nat))] := by
    rw [List.mem_cons, List.mem_singleton, List.mem_singleton]
    exact or_comm
  have htwo := (@compactStore_iff (pairOut 2).bin (pairOut 2).idx _ false _).mpr
    ⟨new, [(0, 0)], hnew.readIndexQ8_eq hok, hsecond, ⟨?_, ?_, ?_, ?_, ?_⟩, rfl⟩
  · obtain ⟨out, hout, hbin, hidx⟩ := compact_twice hone htwo pairMask_read hsecond hboth hunion
    exact ⟨_, out, htwo, hout, hbin, hidx⟩
  · intro key hkey
    rw [List.mem_singleton.mp hkey, hnew.header]
    exact ⟨Nat.zero_lt_one, Nat.zero_lt_two⟩
  · intro _ key hkey
    rw [List.mem_singleton.mp hkey, hids]
    exact List.mem_cons_self
  · rw [hnew.header]
    exact UInt64.toNat_ofNat_of_lt' hnew.size
  · rw [hempty]
    exact fun _ hr => absurd hr List.not_mem_nil
  · rw [hplaced]
    decide

/-! ### A store that was verified -/

/-- The record of an expert that the runtime finds. -/
theorem find_record {s : ExpertStore} (hok : IndexOk s) (hlt : ∀ k, s.recordOf k < 2 ^ 31)
    {layer expert : Int} {i : Nat} (h : kvlExpertFind s layer expert = some i) :
    s.record i ∈ s.records ∧ keyOf (s.record i) = (layer.toNat, expert.toNat) := by
  unfold kvlExpertFind at h
  split at h
  · rename_i hin
    have hexpert : expert.toNat < s.hdr.nExperts.toNat := by
      have hle := cInt_le s.nExperts
      obtain ⟨_, he, _, het⟩ := hin
      unfold ExpertStore.nExperts at hle het
      omega
    obtain ⟨hget, _⟩ := recordAt_some_iff hok.table hlt hexpert h
    obtain ⟨r, hr, hkey⟩ := Option.map_eq_some_iff.mp (List.getElem?_map.symm.trans hget)
    have hrecord : s.record i = r := by
      rw [ExpertStore.record, List.getD_eq_getElem?_getD, hr]
      rfl
    rw [hrecord]
    exact ⟨List.mem_of_getElem? hr, hkey⟩
  · cases h

/-- Whoever has made a store that the verifier accepts: what a runtime finds in it is an expert of
the source that the mask leaves, and it loads the bytes that the source holds for it. -/
theorem verified_serves {δ : Type*} [DecidableEq δ] {sha256 : Bytes → δ}
    {srcBin srcIdx dstBin dstIdx : Bytes} {mask : Str} {counts : Nat × Nat} {src dst : ExpertStore}
    (h : verifyCompaction sha256 srcBin srcIdx dstBin dstIdx mask = some counts)
    (hsrc : readIndex srcIdx true = some src) (hdst : readIndex dstIdx true = some dst)
    {layer expert : Int} {j : Nat} (hj : kvlExpertFind dst layer expert = some j) :
    ∃ disabled, readMask mask = some disabled ∧ (layer.toNat, expert.toNat) ∉ disabled ∧
      (layer.toNat, expert.toNat) ∈ src.records.map keyOf ∧
      ∀ i, kvlExpertFind src layer expert = some i →
        { dst.record j with fileOffset := (src.record i).fileOffset } = src.record i ∧
        ∀ (fd : Int) (m : SlotMemory), kvlExpertLoadInto { dst with fd := fd } dstBin j m =
          kvlExpertLoadInto { src with fd := fd } srcBin i m := by
  obtain ⟨m, new, disabled, hm, hnew, hmask, hids, hrecords⟩ := verifyCompaction_sound h
  obtain ⟨hsrcHdr, hsrcRecords⟩ := readIndex_records hm hsrc
  obtain ⟨hdstHdr, hdstRecords⟩ := readIndex_records hnew hdst
  obtain ⟨hmem, hkey⟩ := find_record (readIndex_ok hdst) (readIndex_lt hdst) hj
  have hid : (layer.toNat, expert.toNat) ∈ new.ids := by
    rw [← hkey, Meta.ids, ← hdstRecords]
    exact List.mem_map_of_mem hmem
  obtain ⟨hsource, hkept⟩ := (hids _).mp hid
  refine ⟨disabled, hmask, hkept, by rwa [hsrcRecords], fun i hi => ?_⟩
  obtain ⟨hmem', hkey'⟩ := find_record (readIndex_ok hsrc) (readIndex_lt hsrc) hi
  rw [hsrcRecords] at hmem'
  rw [hdstRecords] at hmem
  have hsame := hrecords _ hmem' _ hmem (hkey.trans hkey'.symm)
  refine ⟨hsame.fields, fun fd memory => hsame.load ?_ ?_ ?_ fd memory⟩
  · exact ((readIndexQ8_ok hm).records _ hmem').bytes.1
  · rw [hsrcHdr, (readIndexQ8_ok hm).shape.2.1]
  · rw [hdstHdr, (readIndexQ8_ok hnew).shape.2.1]

theorem verified_serves_pair : ∃ src dst j, readIndex (pairIdx 2) true = some src ∧
    readIndex (pairOut 2).idx true = some dst ∧ kvlExpertFind dst 0 0 = some j ∧
      (0, 0) ∈ src.records.map keyOf := by
  obtain ⟨src, dst, hsrc, hdst, _, hj⟩ := pair_opened
  have hone := @pair_compacted 2 (by decide) false
  obtain ⟨counts, hverify⟩ := verifyCompaction_compacted (fun bytes => bytes.length) hone
  obtain ⟨_, _, _, hmem, _⟩ := verified_serves hverify hsrc hdst hj
  exact ⟨src, dst, 0, hsrc, hdst, hj, hmem⟩

/-! ### Where the records lie -/

def sizes (records : List ExpertRecord) : Nat := (records.map fun r => r.readBytes.toNat).sum

theorem sizes_append (rs rs' : List ExpertRecord) : sizes (rs ++ rs') = sizes rs + sizes rs' := by
  rw [sizes, List.map_append, List.sum_append, sizes, sizes]

/-- The records lie one behind another from the start of the output to its end. -/
structure LaidOut (k : Kept) : Prop where
  aligned : 4096 ∣ k.dst.length
  total : k.dst.length = sizes k.records
  offsets : k.dst.length < 2 ^ 64 → ∀ (i : Nat) (r : ExpertRecord), k.records[i]? = some r →
    r.fileOffset.toNat = sizes (k.records.take i)

theorem LaidOut.place {src : Bytes} {k : Kept} (h : LaidOut k) {r : ExpertRecord}
    (hfull : Complete src r) (hbytes : r.readBytes.toNat % 4096 = 0) : LaidOut (place src k r) := by
  have hpad := Extents.pad_of_dvd (by decide) (0 : UInt8) h.aligned
  have hlength : (Compact.place src k r).dst.length = k.dst.length + r.readBytes.toNat := by
    unfold Compact.place
    rw [hpad, List.length_append, hfull]
  refine ⟨?_, ?_, fun hlt i r' hr' => ?_⟩
  · rw [hlength]
    exact Nat.dvd_add h.aligned (Nat.dvd_of_mod_eq_zero hbytes)
  · rw [hlength, h.total, Compact.place, sizes_append]
    rfl
  · rw [hlength] at hlt
    have hbelow := Nat.lt_of_le_of_lt (Nat.le_add_right _ _) hlt
    unfold Compact.place at hr' ⊢
    dsimp only at hr' ⊢
    by_cases hi : i < k.records.length
    · rw [List.getElem?_append_left hi] at hr'
      rw [List.take_append_of_le_length (Nat.le_of_lt hi)]
      exact h.offsets hbelow i r' hr'
    · have hlast := (List.getElem?_eq_some_iff.mp hr').1
      rw [List.length_append, List.length_singleton] at hlast
      obtain rfl : i = k.records.length := by omega
      rw [List.getElem?_append_right (Nat.le_refl _), Nat.sub_self, List.getElem?_cons_zero] at hr'
      rw [← Option.some.inj hr', List.take_left, hpad, ← h.total]
      exact UInt64.toNat_ofNat_of_lt' hbelow

theorem laidOut_foldl {src : Bytes} {rs : List ExpertRecord} {k : Kept} (h : LaidOut k)
    (hfull : ∀ r ∈ rs, Complete src r) (hbytes : ∀ r ∈ rs, r.readBytes.toNat % 4096 = 0) :
    LaidOut (rs.foldl (place src) k) := by
  induction rs generalizing k with
  | nil => exact h
  | cons r rs ih =>
    obtain ⟨hr, hrest⟩ := List.forall_mem_cons.mp hfull
    obtain ⟨hsize, hsizes⟩ := List.forall_mem_cons.mp hbytes
    exact ih (h.place hr hsize) hrest hsizes

/-- The index of a compaction, as it was before it was written. -/
def outMeta (srcBin : Bytes) (disabled : List (Nat × Nat)) (m : Meta) : Meta where
  header := compactHeader m.header (placed srcBin disabled m).records.length
    (placed srcBin disabled m).dst.length
  records := (placed srcBin disabled m).records

theorem Compacts.compacted {srcBin : Bytes} {disabled : List (Nat × Nat)} {allowMissing : Bool}
    {m : Meta} (h : Compacts srcBin disabled allowMissing m) (hm : MetaOk m) :
    Compacted srcBin m disabled (outputOf srcBin disabled m) (outMeta srcBin disabled m) := by
  have hrun := keepRecords_iff.mpr ⟨h.complete, @rfl _ (placed srcBin disabled m)⟩
  have hkept : KeptOk srcBin disabled m.records (placed srcBin disabled m) := @KeptOk.run _ _ _ [] _ _
    ⟨Nat.dvd_zero _, fun _ => .nil⟩ (fun r hr => (hm.records r hr).bytes.2) hrun
  exact ⟨h.size, h.inRange, rfl, h.fits, hkept.records h.fits, rfl, rfl⟩

/-- However the records of the source alias or overlap, the kept ones lie one behind another in the
output: each begins where those before it end, and the last ends with the file. -/
theorem compacted_contiguous {srcBin srcIdx : Bytes} {mask : Str} {allowMissing : Bool} {out : Output}
    (h : compactStore srcBin srcIdx mask allowMissing = some out) :
    ∃ m, readIndexQ8 out.idx = some m ∧ out.bin.length = sizes m.records ∧
      ∀ (i : Nat) (r : ExpertRecord), m.records[i]? = some r →
        r.fileOffset.toNat = sizes (m.records.take i) := by
  obtain ⟨m, disabled, hm, hmask, hcompacts, rfl⟩ := compactStore_iff.mp h
  have hok := readIndexQ8_ok hm
  have hlaid : LaidOut (placed srcBin disabled m) :=
    laidOut_foldl ⟨Nat.dvd_zero _, rfl, fun _ i r hr => by cases hr⟩ hcompacts.complete
      fun r hr => (hok.records r (List.mem_of_mem_filter hr)).bytes.2
  exact ⟨_, (hcompacts.compacted hok).readIndexQ8_eq hok, hlaid.total, hlaid.offsets hcompacts.fits⟩

theorem compacted_contiguous_pair : ∃ m, readIndexQ8 (pairOut 2).idx = some m ∧
    pairBin.length = sizes m.records := by
  obtain ⟨m, hread, htotal, _⟩ := compacted_contiguous (@pair_compacted 2 (by decide) false)
  exact ⟨m, hread, htotal⟩

end Kvl.Compact

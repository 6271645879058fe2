import Kvl.Store.Index

/-!
# Writing an expert index

The tools write an index with `struct.pack`: the header, the records one after
another, and for a GGUF store the sources. `read_index` gets back what they
wrote.
-/

namespace Kvl

set_option autoImplicit false

def encodeHeader (h : ExpertIndexHeader) : Bytes :=
  h.magic ++ toLE 4 h.version.toNat ++ toLE 4 h.align.toNat ++ toLE 4 h.nLayers.toNat ++
    toLE 4 h.nExperts.toNat ++ toLE 4 h.nRecords.toNat ++ toLE 4 h.dtype.toNat ++
    toLE 8 h.recordsOffset.toNat ++ toLE 8 h.dataFileBytes.toNat

def encodeIndex (h : ExpertIndexHeader) (records : List ExpertRecord)
    (sources : List GgufQ8Source) : Bytes :=
  encodeHeader h ++ records.flatMap encodeRecord ++ sources.flatMap encodeSource

@[simp] theorem toLE_length (w n : Nat) : (toLE w n).length = w := by
  induction w generalizing n with
  | zero => rfl
  | succ w ih =>
    unfold toLE
    rw [List.length_cons, ih]

theorem ofLE_toLE (w n : Nat) : ofLE (toLE w n) = n % 256 ^ w := by
  induction w generalizing n with
  | zero => exact (Nat.mod_one n).symm
  | succ w ih =>
    have hbyte : (UInt8.ofNat n).toNat = n % 256 := UInt8.toNat_ofNat'
    have hpow : 256 ^ (w + 1) = 256 * 256 ^ w := Nat.pow_succ'
    unfold toLE ofLE
    rw [ih, hbyte, hpow, Nat.mod_mul]

theorem drop_toLE_append {w k : Nat} (h : w ≤ k) (n : Nat) (b : Bytes) :
    (toLE w n ++ b).drop k = b.drop (k - w) := by
  rw [List.drop_append, List.drop_of_length_le (by rw [toLE_length]; exact h), toLE_length,
    List.nil_append]

theorem take_toLE_append (w n : Nat) (b : Bytes) : (toLE w n ++ b).take w = toLE w n :=
  List.take_left' (toLE_length w n)

theorem take_toLE (w n : Nat) : (toLE w n).take w = toLE w n :=
  List.take_of_length_le (Nat.le_of_eq (toLE_length w n))

theorem u32_ofLE_toLE (x : UInt32) : UInt32.ofNat (ofLE (toLE 4 x.toNat)) = x := by
  have hx : x.toNat < 256 ^ 4 := x.toNat_lt
  rw [ofLE_toLE, Nat.mod_eq_of_lt hx, UInt32.ofNat_toNat]

theorem u64_ofLE_toLE (x : UInt64) : UInt64.ofNat (ofLE (toLE 8 x.toNat)) = x := by
  have hx : x.toNat < 256 ^ 8 := x.toNat_lt
  rw [ofLE_toLE, Nat.mod_eq_of_lt hx, UInt64.ofNat_toNat]

/-! ### What was written is read back -/

theorem encodeRecord_length (r : ExpertRecord) : (encodeRecord r).length = recordBytes := by
  simp only [encodeRecord, List.length_append, toLE_length]
  rfl

theorem encodeSource_length (q : GgufQ8Source) : (encodeSource q).length = ggufQ8SourceBytes := by
  simp only [encodeSource, List.length_append, toLE_length]
  rfl

theorem decodeRecord_encodeRecord (r : ExpertRecord) : decodeRecord (encodeRecord r) = r := by
  simp only [decodeRecord, encodeRecord, u32At, u64At, List.append_assoc, List.drop_zero,
    drop_toLE_append, take_toLE_append, take_toLE, u32_ofLE_toLE, u64_ofLE_toLE, Nat.reduceLeDiff,
    Nat.reduceSub]

theorem decodeSource_encodeSource (q : GgufQ8Source) :
    decodeGgufQ8Source (encodeSource q) = q := by
  simp only [decodeGgufQ8Source, encodeSource, u64At, List.append_assoc, List.drop_zero,
    drop_toLE_append, take_toLE_append, take_toLE, u64_ofLE_toLE, Nat.reduceLeDiff, Nat.reduceSub]

theorem encodeHeader_length {h : ExpertIndexHeader} (hmagic : h.magic = expertMagic) :
    (encodeHeader h).length = headerBytes := by
  simp only [encodeHeader, hmagic, List.length_append, toLE_length]
  rfl

theorem decodeHeader_encodeHeader {h : ExpertIndexHeader} (hmagic : h.magic = expertMagic)
    (b : Bytes) : decodeHeader (encodeHeader h ++ b) = h := by
  have hdrop (k : Nat) (hk : 8 ≤ k) (b : Bytes) :
      (expertMagic ++ b).drop k = b.drop (k - 8) := by
    rw [List.drop_append, List.drop_of_length_le (by exact hk), List.nil_append]
    rfl
  have htake (b : Bytes) : (expertMagic ++ b).take 8 = expertMagic := List.take_left' rfl
  obtain ⟨magic, version, align, nLayers, nExperts, nRecords, dtype, recordsOffset, dataBytes⟩ := h
  simp only at hmagic
  subst hmagic
  simp only [decodeHeader, encodeHeader, u32At, u64At, List.append_assoc, List.drop_zero, htake,
    hdrop, drop_toLE_append, take_toLE_append, u32_ofLE_toLE, u64_ofLE_toLE, Nat.reduceLeDiff,
    Nat.reduceSub, Nat.le_refl]

theorem freadMany_flatMap {α : Type*} {decode : Bytes → α} {encode : α → Bytes} {size : Nat}
    (hlength : ∀ x, (encode x).length = size) (hdecode : ∀ x, decode (encode x) = x)
    (xs : List α) (rest : Bytes) :
    freadMany decode size xs.length (xs.flatMap encode ++ rest) = some (xs, rest) := by
  induction xs with
  | nil => rfl
  | cons x xs ih =>
    rw [List.length_cons, List.flatMap_cons, List.append_assoc]
    unfold freadMany
    have hlong : ¬ (encode x ++ (xs.flatMap encode ++ rest)).length < size := by
      rw [List.length_append, hlength]
      omega
    rw [if_neg hlong, List.drop_left' (hlength x), List.take_left' (hlength x), ih, hdecode]
    rfl

/-! ### Records of different cells -/

/-- The ids that a table can be filled with. -/
structure RecordsOk (hdr : ExpertIndexHeader) (records : List ExpertRecord) : Prop where
  ids : ∀ r ∈ records, r.layer < hdr.nLayers ∧ r.expert < hdr.nExperts
  distinct : (records.map (recordCell hdr)).Nodup

theorem enterRecords_isSome {hdr : ExpertIndexHeader} {records : List ExpertRecord}
    (h : RecordsOk hdr records) (i : Nat) {recordOf : Nat → Int}
    (hempty : ∀ r ∈ records, recordOf (recordCell hdr r) < 0) :
    ∃ table, enterRecords hdr records i recordOf = some table := by
  induction records generalizing i recordOf with
  | nil => exact ⟨recordOf, rfl⟩
  | cons r records ih =>
    obtain ⟨hr, hrest⟩ := List.forall_mem_cons.mp h.ids
    have hnodup := h.distinct
    rw [List.map_cons, List.nodup_cons] at hnodup
    obtain ⟨hnew, hnodup⟩ := hnodup
    have henter : enterRecord hdr recordOf i r =
        some (Function.update recordOf (recordCell hdr r) (cInt i)) := by
      have hids : ¬ (r.layer ≥ hdr.nLayers ∨ r.expert ≥ hdr.nExperts) := by
        rw [not_or]
        exact ⟨UInt32.not_le.mpr hr.1, UInt32.not_le.mpr hr.2⟩
      unfold enterRecord
      rw [if_neg hids, if_neg (Int.not_le.mpr (hempty r List.mem_cons_self))]
    unfold enterRecords
    rw [henter]
    apply ih ⟨hrest, hnodup⟩
    intro x hx
    have hne : recordCell hdr x ≠ recordCell hdr r := by
      intro heq
      exact hnew (heq ▸ List.mem_map_of_mem hx)
    rw [Function.update_of_ne hne]
    exact hempty x (List.mem_cons_of_mem r hx)

/-- A header for the records that follow it. -/
structure HeaderOk (hdr : ExpertIndexHeader) (records : List ExpertRecord) : Prop where
  magic : hdr.magic = expertMagic
  version : hdr.version = expertVersion
  align : hdr.align = 4096
  count : hdr.nRecords.toNat = records.length
  offset : hdr.recordsOffset = 48

theorem readIndex_encodeIndex {hdr : ExpertIndexHeader} {records : List ExpertRecord}
    {written : List GgufQ8Source} {sources : Option (List GgufQ8Source)} (h : HeaderOk hdr records)
    (hne : records ≠ []) (hrecords : RecordsOk hdr records)
    (hsources : readGgufSources hdr records (written.flatMap encodeSource) = some sources) :
    ∃ recordOf, enterRecords hdr records 0 (fun _ => -1) = some recordOf ∧
      readIndex (encodeIndex hdr records written) true =
        some ⟨-1, false, hdr, records, sources, recordOf⟩ := by
  obtain ⟨recordOf, htable⟩ := @enterRecords_isSome _ _ hrecords 0 (fun _ => -1) fun _ _ => by decide
  refine ⟨recordOf, htable, ?_⟩
  have hcount : hdr.nRecords ≠ 0 := by
    intro hzero
    have hlength := h.count
    rw [hzero] at hlength
    exact hne (List.length_eq_zero_iff.mp hlength.symm)
  have hoffset : hdr.recordsOffset.toNat = headerBytes := by
    rw [h.offset]
    rfl
  have hlength := encodeHeader_length h.magic
  unfold encodeIndex
  rw [List.append_assoc]
  apply readIndex_eq_some _ (decodeHeader_encodeHeader h.magic _) ⟨h.magic, h.version⟩
    ⟨h.align, hcount⟩ _ _ hsources htable
  · rw [List.length_append, hlength]
    exact Nat.le_add_right _ _
  · rw [hoffset]
    decide
  · rw [hoffset, List.drop_left' hlength, h.count]
    exact freadMany_flatMap encodeRecord_length decodeRecord_encodeRecord records _

end Kvl

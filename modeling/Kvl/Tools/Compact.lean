import Kvl.Lib.Decimal
import Kvl.Lib.Extents
import Kvl.Lib.PyNumber
import Kvl.Store.Encode

/-!
# Compacting an expert store

`compact_store` copies the records that a mask leaves into a new store and writes the mask
beside its index. `verify_compaction` compares such a store with its source.
-/

namespace Kvl.Compact

set_option autoImplicit false

open PyText (Str splitlines strip split pyInt)
open Extents (slice pad slice_zero slice_add slice_length_self length_slice_le length_slice_add
  slice_append slice_last pad_of_dvd)

/-! ### Reading -/

/-- Keys are looked up in lists of keys. -/
local instance instLawfulKey : LawfulBEq (Nat × Nat) := inferInstance

/-- One line of a mask. -/
def readMaskLine (disabled : List (Nat × Nat)) (raw : Str) : Option (List (Nat × Nat)) :=
  let line := strip (raw.takeWhile (· ≠ 35))
  if line = [] then some disabled
  else match split line with
    | [l, e] => (pyInt l).bind fun layer => (pyInt e).bind fun expert =>
        if layer < 0 ∨ expert < 0 then none
        else if (layer.toNat, expert.toNat) ∈ disabled then none
        else some (disabled ++ [(layer.toNat, expert.toNat)])
    | _ => none

def readMask (text : Str) : Option (List (Nat × Nat)) :=
  ((splitlines text).foldlM readMaskLine []).bind fun disabled =>
    if disabled = [] then none else some disabled

def keyOf (r : ExpertRecord) : Nat × Nat := (r.layer.toNat, r.expert.toNat)

/-- The checks of the records, behind those of `seen`. -/
def checkRecords (h : ExpertIndexHeader) : List ExpertRecord → List (Nat × Nat) → Bool
  | [], _ => true
  | r :: rest, seen =>
    decide (r.layer < h.nLayers ∧ r.expert < h.nExperts) && decide (keyOf r ∉ seen) &&
      decide (0 < r.readBytes.toNat ∧ r.readBytes.toNat % 4096 = 0) &&
      decide (r.fileOffset.toNat % 4096 = 0) && checkRecords h rest (keyOf r :: seen)

structure Meta where
  header : ExpertIndexHeader
  records : List ExpertRecord

def Meta.ids (m : Meta) : List (Nat × Nat) := m.records.map keyOf

/-- The ids that a mask leaves, in the order of the records. -/
def keptIds (m : Meta) (disabled : List (Nat × Nat)) : List (Nat × Nat) :=
  m.ids.filter fun key => decide (key ∉ disabled)

/-- `read_index`. -/
def readIndexQ8 (raw : Bytes) : Option Meta :=
  if raw.length < headerBytes then none
  else
    let h := decodeHeader raw
    if h.magic ≠ expertMagic ∨ h.version ≠ expertVersion then none
    else if h.align ≠ 4096 ∨ h.dtype ≠ dtypeQ8Row ∨ h.recordsOffset.toNat ≠ headerBytes then none
    else if raw.length ≠ h.recordsOffset.toNat + h.nRecords.toNat * recordBytes then none
    else
      (freadMany decodeRecord recordBytes h.nRecords.toNat (raw.drop headerBytes)).bind
        fun records => if checkRecords h records.1 [] then some ⟨h, records.1⟩ else none

/-! ### Compacting -/

/-- `CHUNK` -/
def chunk : Nat := 1024 * 1024

/-- The loop of `copy_exact` from `pos` on; `none` is a short read. -/
def copyLoop (src : Bytes) (pos remain : Nat) (dst : Bytes) : Option Bytes :=
  if remain = 0 then some dst
  else if (slice src pos (min chunk remain)).length = 0 then none
  else
    copyLoop src (pos + (slice src pos (min chunk remain)).length)
      (remain - (slice src pos (min chunk remain)).length)
      (dst ++ slice src pos (min chunk remain))
termination_by remain

def copyExact (src dst : Bytes) (offset n : Nat) : Option Bytes := copyLoop src offset n dst

structure Kept where
  dst : Bytes
  records : List ExpertRecord

/-- One record of the source. -/
def keepRecord (src : Bytes) (disabled : List (Nat × Nat)) (k : Kept) (r : ExpertRecord) :
    Option Kept :=
  if keyOf r ∈ disabled then some k
  else
    let dst := pad 0 4096 k.dst
    (copyExact src dst r.fileOffset.toNat r.readBytes.toNat).map fun out =>
      ⟨out, k.records ++ [{ r with fileOffset := UInt64.ofNat dst.length }]⟩

def sortKeys (keys : List (Nat × Nat)) : List (Nat × Nat) :=
  keys.mergeSort fun a b => a.1 < b.1 ∨ (a.1 = b.1 ∧ a.2 ≤ b.2)

def asciiBytes (s : String) : Bytes := s.toList.map fun c => UInt8.ofNat c.toNat

def maskEntry (key : Nat × Nat) : Bytes :=
  CText.decimal key.1 ++ [32] ++ CText.decimal key.2 ++ [10]

/-- `write_mask_sidecar`. -/
def maskSidecar (disabled : List (Nat × Nat)) : Bytes :=
  asciiBytes "# KVL_MOE_MASK_V1\n" ++
    asciiBytes "# Bound to the physically absent routed expert records.\n" ++
    (sortKeys disabled).flatMap maskEntry

def compactHeader (h : ExpertIndexHeader) (count size : Nat) : ExpertIndexHeader where
  magic := expertMagic
  version := expertVersion
  align := 4096
  nLayers := h.nLayers
  nExperts := h.nExperts
  nRecords := UInt32.ofNat count
  dtype := dtypeQ8Row
  recordsOffset := 48
  dataFileBytes := UInt64.ofNat size

/-- The data file, the index and the mask beside it. -/
structure Output where
  bin : Bytes
  idx : Bytes
  sidecar : Bytes

/-- `compact_store` on files that are all different; `none` where it raises. -/
def compactStore (srcBin srcIdx : Bytes) (mask : Str) (allowMissingDisabled : Bool) :
    Option Output :=
  (readIndexQ8 srcIdx).bind fun m => (readMask mask).bind fun disabled =>
    if disabled.any fun key =>
        decide (m.header.nLayers.toNat ≤ key.1 ∨ m.header.nExperts.toNat ≤ key.2) then none
    else if (disabled.any fun key => decide (key ∉ m.ids)) ∧ ¬ allowMissingDisabled then none
    else if m.header.dataFileBytes.toNat ≠ srcBin.length then none
    else
      (m.records.foldlM (keepRecord srcBin disabled) ⟨[], []⟩).bind fun k =>
        if 2 ^ 64 ≤ k.dst.length then none
        else
          some ⟨k.dst, encodeIndex (compactHeader m.header k.records.length k.dst.length) k.records [],
            maskSidecar disabled⟩

/-! ### Verifying -/

/-- The loop that compares a record, with what both digests have taken in; `none` is a short read
or a difference. -/
def compareLoop (src sparse : Bytes) (pos pos' remain : Nat) (digests : Bytes × Bytes) :
    Option (Bytes × Bytes) :=
  if remain = 0 then some digests
  else
    let take := min chunk remain
    let a := slice src pos take
    let b := slice sparse pos' take
    if a.length ≠ take ∨ b.length ≠ take then none
    else if a ≠ b then none
    else compareLoop src sparse (pos + take) (pos' + take) (remain - take)
      (digests.1 ++ a, digests.2 ++ b)
termination_by remain
decreasing_by
  unfold chunk
  omega

def keyTag (key : Nat × Nat) (n : Nat) : Bytes :=
  CText.decimal key.1 ++ [58] ++ CText.decimal key.2 ++ [58] ++ CText.decimal n ++ [10]

def recordById (m : Meta) (key : Nat × Nat) : Option ExpertRecord :=
  m.records.find? fun r => keyOf r = key

/-- One kept id. -/
def verifyRecord (srcBin sparseBin : Bytes) (src dst : Meta) (s : (Bytes × Bytes) × Nat)
    (key : Nat × Nat) : Option ((Bytes × Bytes) × Nat) :=
  (recordById src key).bind fun sr => (recordById dst key).bind fun dr =>
    if { dr with fileOffset := sr.fileOffset } ≠ sr then none
    else
      let n := sr.readBytes.toNat
      (compareLoop srcBin sparseBin sr.fileOffset.toNat dr.fileOffset.toNat n
        (s.1.1 ++ keyTag key n, s.1.2 ++ keyTag key n)).map fun digests => (digests, s.2 + n)

/-- `verify_compaction`: the number of records and of bytes it compared, `none` where it raises. -/
def verifyCompaction {δ : Type*} [DecidableEq δ] (sha256 : Bytes → δ)
    (sourceBin sourceIdx sparseBin sparseIdx : Bytes) (mask : Str) : Option (Nat × Nat) :=
  (readIndexQ8 sourceIdx).bind fun src => (readIndexQ8 sparseIdx).bind fun dst =>
    (readMask mask).bind fun disabled =>
      if src.header.nLayers ≠ dst.header.nLayers ∨ src.header.nExperts ≠ dst.header.nExperts then
        none
      else if sourceBin.length ≠ src.header.dataFileBytes.toNat then none
      else if sparseBin.length ≠ dst.header.dataFileBytes.toNat then none
      else if disabled.any fun key => decide (key ∉ src.ids) then none
      else
        let expected := src.ids.filter fun key => decide (key ∉ disabled)
        if (expected.any fun key => decide (key ∉ dst.ids)) ∨
            dst.ids.any fun key => decide (key ∉ expected) then none
        else if dst.header.nRecords.toNat ≠ expected.length then none
        else
          ((sortKeys expected).foldlM (verifyRecord sourceBin sparseBin src dst)
            (([], []), 0)).bind fun s =>
              if sha256 s.1.1 ≠ sha256 s.1.2 then none else some (expected.length, s.2)

/-! ### The copied bytes -/

theorem copyLoop_eq (src : Bytes) (pos n : Nat) (dst : Bytes) :
    copyLoop src pos n dst =
      if (slice src pos n).length = n then some (dst ++ slice src pos n) else none := by
  induction n using Nat.strong_induction_on generalizing pos dst with
  | _ n ih =>
    unfold copyLoop
    by_cases hzero : n = 0
    · rw [if_pos hzero, hzero, slice_zero, if_pos List.length_nil, List.append_nil]
    have hpos : 0 < min chunk n := Nat.lt_min.mpr ⟨by decide, Nat.pos_of_ne_zero hzero⟩
    have hle : (slice src pos (min chunk n)).length ≤ min chunk n := length_slice_le _ _ _
    have hn : min chunk n ≤ n := Nat.min_le_right _ _
    rw [if_neg hzero]
    by_cases hempty : (slice src pos (min chunk n)).length = 0
    · rw [if_pos hempty, if_neg]
      intro hfull
      rw [← Nat.add_sub_cancel' hn, length_slice_add] at hfull
      omega
    · generalize hm : (slice src pos (min chunk n)).length = m at *
      have hsame : slice src pos m = slice src pos (min chunk n) := by
        rw [← hm, slice_length_self]
      have hlen : (slice src pos m).length = m := by rw [hsame, hm]
      have hmn : m + (n - m) = n := by omega
      rw [if_neg hempty, ih _ (by omega), ← hsame, List.append_assoc, ← slice_add, hmn]
      congr 1
      rw [eq_iff_iff, ← hmn, Nat.add_sub_cancel_left, length_slice_add]
      exact ⟨fun h => ⟨hlen, h⟩, fun h => h.2⟩

/-- The two slices, read in full and found the same. -/
theorem compareLoop_eq_some {src sparse : Bytes} {pos pos' n : Nat} {digests out : Bytes × Bytes} :
    compareLoop src sparse pos pos' n digests = some out ↔
      ((slice src pos n).length = n ∧ (slice sparse pos' n).length = n) ∧
        slice src pos n = slice sparse pos' n ∧
        out = (digests.1 ++ slice src pos n, digests.2 ++ slice src pos n) := by
  induction n using Nat.strong_induction_on generalizing pos pos' digests with
  | _ n ih =>
    unfold compareLoop
    by_cases hzero : n = 0
    · subst n
      simp only [if_true, slice_zero, List.append_nil, List.length_nil, true_and,
        Option.some.injEq, eq_comm]
    have hpos : 0 < min chunk n := Nat.lt_min.mpr ⟨by decide, Nat.pos_of_ne_zero hzero⟩
    have hn : min chunk n + (n - min chunk n) = n := Nat.add_sub_cancel' (Nat.min_le_right _ _)
    have hsrc := slice_add src pos (min chunk n) (n - min chunk n)
    have hsparse := slice_add sparse pos' (min chunk n) (n - min chunk n)
    have hlen := @length_slice_add _ src pos (min chunk n) (n - min chunk n)
    have hlen' := @length_slice_add _ sparse pos' (min chunk n) (n - min chunk n)
    rw [hn] at hsrc hsparse hlen hlen'
    rw [if_neg hzero, hlen, hlen', hsrc, hsparse]
    dsimp only
    by_cases hshort : (slice src pos (min chunk n)).length ≠ min chunk n ∨
        (slice sparse pos' (min chunk n)).length ≠ min chunk n
    · rw [if_pos hshort]
      refine ⟨fun h => (by cases h), fun h => absurd hshort ?_⟩
      push Not
      exact ⟨h.1.1.1, h.1.2.1⟩
    push Not at hshort
    rw [if_neg (by push Not; exact hshort)]
    by_cases hdiff : slice src pos (min chunk n) = slice sparse pos' (min chunk n)
    · rw [if_neg (not_not.mpr hdiff), ih _ (by omega), hdiff, List.append_cancel_left_eq,
        List.append_assoc, List.append_assoc]
      tauto
    · rw [if_pos hdiff]
      refine ⟨fun h => (by cases h), fun h => absurd ?_ hdiff⟩
      exact (List.append_inj h.2.1 (hshort.1.trans hshort.2.symm)).1

/-! ### Accepted indices -/

structure RecordOk (h : ExpertIndexHeader) (r : ExpertRecord) : Prop where
  ids : r.layer < h.nLayers ∧ r.expert < h.nExperts
  bytes : 0 < r.readBytes.toNat ∧ r.readBytes.toNat % 4096 = 0
  offset : r.fileOffset.toNat % 4096 = 0

theorem checkRecords_iff {h : ExpertIndexHeader} {records : List ExpertRecord}
    {seen : List (Nat × Nat)} : checkRecords h records seen = true ↔
      (∀ r ∈ records, RecordOk h r) ∧ (records.map keyOf).Nodup ∧
        ∀ r ∈ records, keyOf r ∉ seen := by
  induction records generalizing seen with
  | nil => simp [checkRecords]
  | cons r records ih =>
    unfold checkRecords
    rw [List.forall_mem_cons, List.forall_mem_cons, List.map_cons, List.nodup_cons]
    simp only [Bool.and_eq_true, decide_eq_true_eq, ih, List.mem_cons, not_or, List.mem_map,
      not_exists, not_and]
    constructor
    · rintro ⟨⟨⟨⟨hids, hnew⟩, hbytes⟩, hoffset⟩, hrest, hnodup, hseen⟩
      exact ⟨⟨⟨hids, hbytes, hoffset⟩, hrest⟩, ⟨fun x hx => (hseen x hx).1, hnodup⟩, hnew,
        fun x hx => (hseen x hx).2⟩
    · rintro ⟨⟨hr, hrest⟩, ⟨hfirst, hnodup⟩, hnew, hseen⟩
      exact ⟨⟨⟨⟨hr.ids, hnew⟩, hr.bytes⟩, hr.offset⟩, hrest, hnodup,
        fun x hx => ⟨hfirst x hx, hseen x hx⟩⟩

/-- What `read_index` makes sure of. -/
structure MetaOk (m : Meta) : Prop where
  magic : m.header.magic = expertMagic ∧ m.header.version = expertVersion
  shape : m.header.align = 4096 ∧ m.header.dtype = dtypeQ8Row ∧
    m.header.recordsOffset.toNat = headerBytes
  count : m.records.length = m.header.nRecords.toNat
  records : ∀ r ∈ m.records, RecordOk m.header r
  distinct : m.ids.Nodup

theorem readIndexQ8_ok {raw : Bytes} {m : Meta} (h : readIndexQ8 raw = some m) : MetaOk m := by
  unfold readIndexQ8 at h
  split at h
  · cases h
  dsimp only at h
  split at h
  · cases h
  rename_i hmagic
  split at h
  · cases h
  rename_i hshape
  split at h
  · cases h
  obtain ⟨records, hread, hcheck⟩ := Option.bind_eq_some_iff.mp h
  split at hcheck
  · rename_i hrecords
    obtain rfl := Option.some.inj hcheck
    obtain ⟨hok, hnodup, _⟩ := checkRecords_iff.mp hrecords
    push Not at hmagic hshape
    exact ⟨hmagic, hshape, freadMany_length hread, hok, hnodup⟩
  · cases hcheck

theorem readIndexQ8_encode {m : Meta} (h : MetaOk m) :
    readIndexQ8 (encodeIndex m.header m.records []) = some m := by
  have hheader := encodeHeader_length h.magic.1
  have hbody : (m.records.flatMap encodeRecord).length = m.header.nRecords.toNat * recordBytes := by
    rw [List.length_flatMap, ← h.count, List.map_congr_left fun r _ => encodeRecord_length r,
      List.map_const', List.sum_replicate, smul_eq_mul]
  have hindex : encodeIndex m.header m.records [] =
      encodeHeader m.header ++ m.records.flatMap encodeRecord := by
    rw [encodeIndex, List.flatMap_nil, List.append_nil]
  have hread := freadMany_flatMap encodeRecord_length decodeRecord_encodeRecord m.records []
  rw [List.append_nil] at hread
  unfold readIndexQ8
  rw [hindex, List.length_append, hheader, hbody, if_neg (by omega)]
  dsimp only
  rw [decodeHeader_encodeHeader h.magic.1, if_neg (by push Not; exact h.magic),
    if_neg (by push Not; exact h.shape), if_neg (by rw [h.shape.2.2]; exact not_not.mpr rfl),
    List.drop_left' hheader, ← h.count, hread]
  exact if_pos (checkRecords_iff.mpr ⟨h.records, h.distinct, fun _ _ => List.not_mem_nil⟩)

theorem recordById_of_mem {m : Meta} (h : MetaOk m) {r : ExpertRecord} (hr : r ∈ m.records) :
    recordById m (keyOf r) = some r := by
  unfold recordById
  cases hfind : m.records.find? fun x => decide (keyOf x = keyOf r) with
  | none => exact absurd (List.find?_eq_none.mp hfind r hr) (by simp)
  | some x =>
    have hx := List.mem_of_find?_eq_some hfind
    have hkey := List.find?_some hfind
    rw [decide_eq_true_eq] at hkey
    rw [List.inj_on_of_nodup_map h.distinct hx hr hkey]

theorem recordById_eq_some {m : Meta} {key : Nat × Nat} {r : ExpertRecord}
    (h : recordById m key = some r) : r ∈ m.records ∧ keyOf r = key := by
  unfold recordById at h
  have hkey := List.find?_some h
  rw [decide_eq_true_eq] at hkey
  exact ⟨List.mem_of_find?_eq_some h, hkey⟩

/-! ### The records that are kept -/

/-- A record that was copied to another place. -/
structure Relocated (src dst : Bytes) (r r' : ExpertRecord) : Prop where
  fields : { r' with fileOffset := r.fileOffset } = r
  aligned : r'.fileOffset.toNat % 4096 = 0
  complete : (slice src r.fileOffset.toNat r.readBytes.toNat).length = r.readBytes.toNat
  inside : r'.fileOffset.toNat + r.readBytes.toNat ≤ dst.length
  copied : slice dst r'.fileOffset.toNat r.readBytes.toNat =
    slice src r.fileOffset.toNat r.readBytes.toNat

theorem Relocated.append {src dst : Bytes} {r r' : ExpertRecord} (h : Relocated src dst r r')
    (more : Bytes) : Relocated src (dst ++ more) r r' where
  fields := h.fields
  aligned := h.aligned
  complete := h.complete
  inside := h.inside.trans (by rw [List.length_append]; exact Nat.le_add_right _ _)
  copied := (slice_append h.inside).trans h.copied

theorem Relocated.keyOf_eq {src dst : Bytes} {r r' : ExpertRecord} (h : Relocated src dst r r') :
    keyOf r' = keyOf r := by
  rw [← h.fields]
  rfl

theorem Relocated.ok {src dst : Bytes} {hdr : ExpertIndexHeader} {r r' : ExpertRecord}
    (h : Relocated src dst r r') (hr : RecordOk hdr r) : RecordOk hdr r' := by
  rw [← h.fields] at hr
  exact ⟨hr.ids, hr.bytes, h.aligned⟩

theorem exists_left {α β : Type*} {R : α → β → Prop} {xs : List α} {ys : List β}
    (h : List.Forall₂ R xs ys) : ∀ y ∈ ys, ∃ x ∈ xs, R x y := by
  induction h with
  | nil => exact fun _ hy => absurd hy List.not_mem_nil
  | cons hfirst _ ih =>
    refine List.forall_mem_cons.mpr ⟨⟨_, List.mem_cons_self, hfirst⟩, fun y hy => ?_⟩
    obtain ⟨x, hx, hxy⟩ := ih y hy
    exact ⟨x, List.mem_cons_of_mem _ hx, hxy⟩

def keeps (disabled : List (Nat × Nat)) (records : List ExpertRecord) : List ExpertRecord :=
  records.filter fun r => decide (keyOf r ∉ disabled)

/-- The output behind the records `done`. Its offsets are 64 bit numbers. -/
structure KeptOk (src : Bytes) (disabled : List (Nat × Nat)) (done : List ExpertRecord) (k : Kept) :
    Prop where
  aligned : 4096 ∣ k.dst.length
  records : k.dst.length < 2 ^ 64 →
    List.Forall₂ (Relocated src k.dst) (keeps disabled done) k.records

theorem KeptOk.step {src : Bytes} {disabled : List (Nat × Nat)} {done : List ExpertRecord}
    {k k' : Kept} {r : ExpertRecord} (h : KeptOk src disabled done k)
    (hbytes : r.readBytes.toNat % 4096 = 0) (hstep : keepRecord src disabled k r = some k') :
    KeptOk src disabled (done ++ [r]) k' := by
  unfold keepRecord at hstep
  split at hstep
  · rename_i hdisabled
    obtain rfl := Option.some.inj hstep
    have hsame : keeps disabled (done ++ [r]) = keeps disabled done := by
      rw [keeps, List.filter_append, List.filter_cons_of_neg (by simpa using hdisabled),
        List.filter_nil, List.append_nil, keeps]
    exact ⟨h.aligned, fun hlt => hsame ▸ h.records hlt⟩
  · rename_i hkept
    have hkeeps : keeps disabled (done ++ [r]) = keeps disabled done ++ [r] := by
      rw [keeps, List.filter_append, List.filter_cons_of_pos (by simpa using hkept),
        List.filter_nil, keeps]
    obtain ⟨out, hcopy, rfl⟩ := Option.map_eq_some_iff.mp hstep
    rw [pad_of_dvd (by decide) _ h.aligned, copyExact, copyLoop_eq] at hcopy
    split at hcopy
    · rename_i hfull
      obtain rfl := Option.some.inj hcopy
      rw [pad_of_dvd (by decide) _ h.aligned]
      refine ⟨?_, fun hlt => ?_⟩
      · rw [List.length_append, hfull]
        exact Nat.dvd_add h.aligned (Nat.dvd_of_mod_eq_zero hbytes)
      rw [List.length_append] at hlt
      rw [hkeeps]
      refine List.rel_append ?_ (.cons ?_ .nil)
      · exact (h.records (Nat.lt_of_le_of_lt (Nat.le_add_right _ _) hlt)).imp
          fun _ _ hrel => hrel.append _
      · have hoffset : (UInt64.ofNat k.dst.length).toNat = k.dst.length :=
          UInt64.toNat_ofNat_of_lt' (Nat.lt_of_le_of_lt (Nat.le_add_right _ _) hlt)
        refine ⟨rfl, ?_, hfull, ?_, ?_⟩ <;> dsimp only <;> rw [hoffset]
        · exact Nat.mod_eq_zero_of_dvd h.aligned
        · rw [List.length_append, hfull]
        · have hlast := slice_last k.dst (slice src r.fileOffset.toNat r.readBytes.toNat)
          rwa [hfull] at hlast
    · cases hcopy

theorem KeptOk.run {src : Bytes} {disabled : List (Nat × Nat)} {todo done : List ExpertRecord}
    {k k' : Kept} (h : KeptOk src disabled done k)
    (hbytes : ∀ r ∈ todo, r.readBytes.toNat % 4096 = 0)
    (hrun : todo.foldlM (keepRecord src disabled) k = some k') :
    KeptOk src disabled (done ++ todo) k' := by
  induction todo generalizing done k with
  | nil =>
    obtain rfl := Option.some.inj hrun
    rwa [List.append_nil]
  | cons r todo ih =>
    rw [List.foldlM_cons] at hrun
    obtain ⟨next, hstep, hrest⟩ := Option.bind_eq_some_iff.mp hrun
    obtain ⟨hr, htodo⟩ := List.forall_mem_cons.mp hbytes
    have := ih (h.step hr hstep) htodo hrest
    rwa [List.append_assoc] at this

/-- What `compact_store` has made of the source `m`: the store `dst`. -/
structure Compacted (srcBin : Bytes) (m : Meta) (disabled : List (Nat × Nat)) (out : Output)
    (dst : Meta) : Prop where
  sourceSize : m.header.dataFileBytes.toNat = srcBin.length
  inRange : ∀ key ∈ disabled, key.1 < m.header.nLayers.toNat ∧ key.2 < m.header.nExperts.toNat
  header : dst.header = compactHeader m.header dst.records.length out.bin.length
  size : out.bin.length < 2 ^ 64
  records : List.Forall₂ (Relocated srcBin out.bin) (keeps disabled m.records) dst.records
  index : out.idx = encodeIndex dst.header dst.records []
  sidecar : out.sidecar = maskSidecar disabled

theorem compactStore_compacted {srcBin srcIdx : Bytes} {mask : Str} {allowMissing : Bool}
    {out : Output} (h : compactStore srcBin srcIdx mask allowMissing = some out) :
    ∃ m disabled dst, readIndexQ8 srcIdx = some m ∧ readMask mask = some disabled ∧
      (allowMissing = false → ∀ key ∈ disabled, key ∈ m.ids) ∧
      Compacted srcBin m disabled out dst := by
  obtain ⟨m, hm, h⟩ := Option.bind_eq_some_iff.mp h
  obtain ⟨disabled, hmask, h⟩ := Option.bind_eq_some_iff.mp h
  split at h
  · cases h
  rename_i hrange
  split at h
  · cases h
  rename_i hmissing
  split at h
  · cases h
  rename_i hsize
  obtain ⟨k, hrun, h⟩ := Option.bind_eq_some_iff.mp h
  split at h
  · cases h
  rename_i hlt
  obtain rfl := Option.some.inj h
  have hok := readIndexQ8_ok hm
  have hkept : KeptOk srcBin disabled m.records k := @KeptOk.run _ _ _ [] _ _
    ⟨Nat.dvd_zero _, fun _ => .nil⟩ (fun r hr => (hok.records r hr).bytes.2) hrun
  simp only [List.any_eq_true, decide_eq_true_eq, not_exists, not_and, not_or, Nat.not_le] at hrange
  refine ⟨m, disabled, ⟨compactHeader m.header k.records.length k.dst.length, k.records⟩, hm, hmask,
    ?_, not_not.mp hsize, hrange, rfl, Nat.lt_of_not_le hlt, hkept.records (Nat.lt_of_not_le hlt),
    rfl, rfl⟩
  rintro rfl key hkey
  by_contra habsent
  exact hmissing ⟨List.any_eq_true.mpr ⟨key, hkey, decide_eq_true habsent⟩, Bool.false_ne_true⟩

namespace Compacted

variable {srcBin : Bytes} {m dst : Meta} {disabled : List (Nat × Nat)} {out : Output}

theorem ids_eq (h : Compacted srcBin m disabled out dst) :
    dst.ids = m.ids.filter fun key => decide (key ∉ disabled) := by
  have hkeys : (keeps disabled m.records).map keyOf = dst.records.map keyOf :=
    List.forall₂_eq_eq_eq ▸
      (List.forall₂_map_left_iff.mpr (List.forall₂_map_right_iff.mpr
        (h.records.imp fun _ _ hrel => hrel.keyOf_eq.symm)))
  rw [Meta.ids, Meta.ids, ← hkeys, keeps, List.filter_map]
  rfl

theorem count_le (h : Compacted srcBin m disabled out dst) :
    dst.records.length ≤ m.records.length := by
  rw [← h.records.length_eq, keeps]
  exact List.length_filter_le _ _

theorem metaOk (h : Compacted srcBin m disabled out dst) (hm : MetaOk m) : MetaOk dst where
  magic := by rw [h.header]; exact ⟨rfl, rfl⟩
  shape := by rw [h.header]; exact ⟨rfl, rfl, rfl⟩
  count := by
    have hlt := m.header.nRecords.toNat_lt
    have hle := h.count_le
    rw [hm.count] at hle
    rw [h.header]
    exact (UInt32.toNat_ofNat_of_lt' (Nat.lt_of_le_of_lt hle hlt)).symm
  records r hr := by
    obtain ⟨r₀, hr₀, hrel⟩ := exists_left h.records r hr
    have hok := hrel.ok (hm.records r₀ (List.mem_of_mem_filter hr₀))
    rw [h.header]
    exact ⟨hok.ids, hok.bytes, hok.offset⟩
  distinct := by
    rw [h.ids_eq]
    exact hm.distinct.filter _

theorem readIndexQ8_eq (h : Compacted srcBin m disabled out dst) (hm : MetaOk m) :
    readIndexQ8 out.idx = some dst := by
  rw [h.index]
  exact readIndexQ8_encode (h.metaOk hm)

end Compacted

/-! ### The verifier -/

/-- Records that differ in nothing but the offset of their bytes. -/
structure SameRecord (src sparse : Bytes) (sr dr : ExpertRecord) : Prop where
  fields : { dr with fileOffset := sr.fileOffset } = sr
  complete : (slice src sr.fileOffset.toNat sr.readBytes.toNat).length = sr.readBytes.toNat
  bytes : slice sparse dr.fileOffset.toNat sr.readBytes.toNat =
    slice src sr.fileOffset.toNat sr.readBytes.toNat

theorem Relocated.sameRecord {src dst : Bytes} {r r' : ExpertRecord} (h : Relocated src dst r r') :
    SameRecord src dst r r' :=
  ⟨h.fields, h.complete, h.copied⟩

def Agrees (srcBin sparseBin : Bytes) (src dst : Meta) (key : Nat × Nat) : Prop :=
  ∃ sr dr, recordById src key = some sr ∧ recordById dst key = some dr ∧
    SameRecord srcBin sparseBin sr dr

section
variable {srcBin sparseBin : Bytes} {src dst : Meta}

theorem verifyRecord_agrees {s s' : (Bytes × Bytes) × Nat} {key : Nat × Nat}
    (h : verifyRecord srcBin sparseBin src dst s key = some s') :
    Agrees srcBin sparseBin src dst key := by
  obtain ⟨sr, hsr, h⟩ := Option.bind_eq_some_iff.mp h
  obtain ⟨dr, hdr, h⟩ := Option.bind_eq_some_iff.mp h
  split at h
  · cases h
  rename_i hfields
  obtain ⟨digests, hcompare, _⟩ := Option.map_eq_some_iff.mp h
  obtain ⟨⟨hfull, _⟩, hsame, _⟩ := compareLoop_eq_some.mp hcompare
  exact ⟨sr, dr, hsr, hdr, not_not.mp hfields, hfull, hsame.symm⟩

theorem verifyRecord_isSome {s : (Bytes × Bytes) × Nat} {key : Nat × Nat}
    (h : Agrees srcBin sparseBin src dst key) (hs : s.1.1 = s.1.2) :
    ∃ s', verifyRecord srcBin sparseBin src dst s key = some s' ∧ s'.1.1 = s'.1.2 := by
  obtain ⟨sr, dr, hsr, hdr, hsame⟩ := h
  have hcomplete := hsame.complete
  rw [← hsame.bytes] at hcomplete
  have hcompare (digests : Bytes × Bytes) := (@compareLoop_eq_some _ _ _ _ _ digests _).mpr
    ⟨⟨hsame.complete, hcomplete⟩, hsame.bytes.symm, rfl⟩
  unfold verifyRecord
  rw [hsr, Option.bind_some, hdr, Option.bind_some, if_neg (not_not.mpr hsame.fields)]
  dsimp only
  rw [hcompare]
  exact ⟨_, rfl, by dsimp only; rw [hs]⟩

theorem verify_agrees {keys : List (Nat × Nat)} {s s' : (Bytes × Bytes) × Nat}
    (h : keys.foldlM (verifyRecord srcBin sparseBin src dst) s = some s') :
    ∀ key ∈ keys, Agrees srcBin sparseBin src dst key := by
  induction keys generalizing s with
  | nil => exact fun _ hkey => absurd hkey List.not_mem_nil
  | cons key keys ih =>
    rw [List.foldlM_cons] at h
    obtain ⟨next, hstep, hrest⟩ := Option.bind_eq_some_iff.mp h
    exact List.forall_mem_cons.mpr ⟨verifyRecord_agrees hstep, ih hrest⟩

theorem verify_isSome {keys : List (Nat × Nat)} {s : (Bytes × Bytes) × Nat} (hs : s.1.1 = s.1.2)
    (h : ∀ key ∈ keys, Agrees srcBin sparseBin src dst key) :
    ∃ s', keys.foldlM (verifyRecord srcBin sparseBin src dst) s = some s' ∧ s'.1.1 = s'.1.2 := by
  induction keys generalizing s with
  | nil => exact ⟨s, rfl, hs⟩
  | cons key keys ih =>
    obtain ⟨hkey, hkeys⟩ := List.forall_mem_cons.mp h
    obtain ⟨next, hstep, hnext⟩ := verifyRecord_isSome hkey hs
    obtain ⟨s', hrest, hs'⟩ := ih hnext hkeys
    refine ⟨s', ?_, hs'⟩
    rw [List.foldlM_cons, hstep]
    exact hrest

end

theorem mem_sortKeys {keys : List (Nat × Nat)} {key : Nat × Nat} :
    key ∈ sortKeys keys ↔ key ∈ keys :=
  (List.mergeSort_perm _ _).mem_iff

section
variable {δ : Type*} [DecidableEq δ]

/-- The verifier accepts what the compactor has written. -/
theorem verifyCompaction_compacted (sha256 : Bytes → δ) {srcBin srcIdx : Bytes} {mask : Str}
    {out : Output} (hout : compactStore srcBin srcIdx mask false = some out) :
    ∃ counts, verifyCompaction sha256 srcBin srcIdx out.bin out.idx mask = some counts := by
  obtain ⟨m, disabled, dst, hm, hmask, hlisted, hdst⟩ := compactStore_compacted hout
  have hok := readIndexQ8_ok hm
  have hids := hdst.ids_eq
  have hagrees (key : Nat × Nat) (hkey : key ∈ dst.ids) :
      Agrees srcBin out.bin m dst key := by
    obtain ⟨dr, hdr, rfl⟩ := List.mem_map.mp hkey
    obtain ⟨sr, hsr, hrel⟩ := exists_left hdst.records dr hdr
    have hsrc := recordById_of_mem hok (List.mem_of_mem_filter hsr)
    rw [← hrel.keyOf_eq] at hsrc
    exact ⟨sr, dr, hsrc, recordById_of_mem (hdst.metaOk hok) hdr, hrel.sameRecord⟩
  obtain ⟨s, hrun, hs⟩ := @verify_isSome _ _ _ _ (sortKeys dst.ids) (([], []), 0) rfl
    fun key hkey => hagrees key (mem_sortKeys.mp hkey)
  have hcount := (hdst.metaOk hok).count
  have hshape : ¬ (m.header.nLayers ≠ dst.header.nLayers ∨
      m.header.nExperts ≠ dst.header.nExperts) := by
    rw [hdst.header]
    simp [compactHeader]
  have hsize : dst.header.dataFileBytes.toNat = out.bin.length := by
    rw [hdst.header]
    exact UInt64.toNat_ofNat_of_lt' hdst.size
  unfold verifyCompaction
  rw [hm, Option.bind_some, hdst.readIndexQ8_eq hok, Option.bind_some, hmask, Option.bind_some,
    if_neg hshape, if_neg (not_not.mpr hdst.sourceSize.symm), if_neg (not_not.mpr hsize.symm),
    if_neg (by simpa using hlisted rfl)]
  dsimp only
  rw [← hids, if_neg (by simp), if_neg, hrun, Option.bind_some, if_neg (not_not.mpr (by rw [hs]))]
  · exact ⟨_, rfl⟩
  · rw [← hcount, Meta.ids, List.length_map]
    exact not_not.mpr rfl

/-- A store that the verifier accepts holds the records of the source that the mask leaves. -/
theorem verifyCompaction_sound {sha256 : Bytes → δ} {srcBin srcIdx sparseBin sparseIdx : Bytes}
    {mask : Str} {counts : Nat × Nat}
    (h : verifyCompaction sha256 srcBin srcIdx sparseBin sparseIdx mask = some counts) :
    ∃ src dst disabled, readIndexQ8 srcIdx = some src ∧ readIndexQ8 sparseIdx = some dst ∧
      readMask mask = some disabled ∧
      (∀ key, key ∈ dst.ids ↔ key ∈ src.ids ∧ key ∉ disabled) ∧
      ∀ sr ∈ src.records, ∀ dr ∈ dst.records, keyOf dr = keyOf sr →
        SameRecord srcBin sparseBin sr dr := by
  obtain ⟨src, hsrc, h⟩ := Option.bind_eq_some_iff.mp h
  obtain ⟨dst, hdst, h⟩ := Option.bind_eq_some_iff.mp h
  obtain ⟨disabled, hmask, h⟩ := Option.bind_eq_some_iff.mp h
  refine ⟨src, dst, disabled, hsrc, hdst, hmask, ?_⟩
  split at h
  · cases h
  split at h
  · cases h
  split at h
  · cases h
  split at h
  · cases h
  dsimp only at h
  split at h
  · cases h
  rename_i hsame
  split at h
  · cases h
  obtain ⟨s, hrun, _⟩ := Option.bind_eq_some_iff.mp h
  simp only [List.any_eq_true, decide_eq_true_eq, not_or, not_exists, not_and, not_not] at hsame
  have hids (key : Nat × Nat) : key ∈ dst.ids ↔ key ∈ src.ids ∧ key ∉ disabled := by
    have hfilter : key ∈ src.ids.filter (fun key => decide (key ∉ disabled)) ↔
        key ∈ src.ids ∧ key ∉ disabled := by
      rw [List.mem_filter, decide_eq_true_iff]
    rw [← hfilter]
    exact ⟨hsame.2 key, hsame.1 key⟩
  refine ⟨hids, fun sr hsr dr hdr hkey => ?_⟩
  have hkept := (hids (keyOf sr)).mp (hkey ▸ List.mem_map_of_mem hdr)
  obtain ⟨sr', dr', hsr', hdr', hrecord⟩ := verify_agrees hrun (keyOf sr)
    (mem_sortKeys.mpr (List.mem_filter.mpr ⟨hkept.1, decide_eq_true hkept.2⟩))
  rw [recordById_of_mem (readIndexQ8_ok hsrc) hsr] at hsr'
  rw [← hkey, recordById_of_mem (readIndexQ8_ok hdst) hdr] at hdr'
  obtain rfl := Option.some.inj hsr'
  obtain rfl := Option.some.inj hdr'
  exact hrecord

end

/-- The verifier accepts what the compactor has written, and a store it accepts holds the records
of the source that the mask leaves. -/
theorem compaction_faithful {δ : Type*} [DecidableEq δ] (sha256 : Bytes → δ)
    (srcBin srcIdx : Bytes) (mask : Str) :
    (∀ out, compactStore srcBin srcIdx mask false = some out →
      ∃ counts, verifyCompaction sha256 srcBin srcIdx out.bin out.idx mask = some counts) ∧
    ∀ sparseBin sparseIdx counts,
      verifyCompaction sha256 srcBin srcIdx sparseBin sparseIdx mask = some counts →
        ∃ src dst disabled, readIndexQ8 srcIdx = some src ∧ readIndexQ8 sparseIdx = some dst ∧
          readMask mask = some disabled ∧
          (∀ key, key ∈ dst.ids ↔ key ∈ src.ids ∧ key ∉ disabled) ∧
          ∀ sr ∈ src.records, ∀ dr ∈ dst.records, keyOf dr = keyOf sr →
            { dr with fileOffset := sr.fileOffset } = sr ∧
              (slice srcBin sr.fileOffset.toNat sr.readBytes.toNat).length = sr.readBytes.toNat ∧
              slice sparseBin dr.fileOffset.toNat sr.readBytes.toNat =
                slice srcBin sr.fileOffset.toNat sr.readBytes.toNat := by
  refine ⟨fun _ hout => verifyCompaction_compacted sha256 hout, fun _ _ _ h => ?_⟩
  obtain ⟨src, dst, disabled, hsrc, hdst, hmask, hids, hrecords⟩ := verifyCompaction_sound h
  refine ⟨src, dst, disabled, hsrc, hdst, hmask, hids, fun sr hsr dr hdr hkey => ?_⟩
  have hrecord := hrecords sr hsr dr hdr hkey
  exact ⟨hrecord.fields, hrecord.complete, hrecord.bytes⟩

end Kvl.Compact

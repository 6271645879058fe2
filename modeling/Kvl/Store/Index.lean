import Kvl.Store.Format

/-!
# Reading an expert index

`read_index` on the bytes of the index file. A read that comes up short, a
field that fails its check, and a failed allocation all end in `none`, since
the caller then closes the store whatever was filled in so far.
-/

namespace Kvl

set_option autoImplicit false

/-- The number some little-endian bytes spell. -/
def ofLE : Bytes → Nat
  | [] => 0
  | b :: bs => b.toNat + 256 * ofLE bs

/-- The `w` little-endian bytes of a number. -/
def toLE : Nat → Nat → Bytes
  | 0, _ => []
  | w + 1, n => UInt8.ofNat n :: toLE w (n / 256)

def u32At (b : Bytes) (off : Nat) : UInt32 := UInt32.ofNat (ofLE ((b.drop off).take 4))

def u64At (b : Bytes) (off : Nat) : UInt64 := UInt64.ofNat (ofLE ((b.drop off).take 8))

def headerBytes : Nat := 48
def recordBytes : Nat := 80
def ggufQ8SourceBytes : Nat := 72

def decodeHeader (b : Bytes) : ExpertIndexHeader where
  magic := b.take 8
  version := u32At b 8
  align := u32At b 12
  nLayers := u32At b 16
  nExperts := u32At b 20
  nRecords := u32At b 24
  dtype := u32At b 28
  recordsOffset := u64At b 32
  dataFileBytes := u64At b 40

def decodeRecord (b : Bytes) : ExpertRecord where
  layer := u32At b 0
  expert := u32At b 4
  fileOffset := u64At b 8
  readBytes := u64At b 16
  payloadBytes := u64At b 24
  gateOff := u64At b 32
  gateBytes := u64At b 40
  upOff := u64At b 48
  upBytes := u64At b 56
  downOff := u64At b 64
  downBytes := u64At b 72

def decodeGgufQ8Source (b : Bytes) : GgufQ8Source where
  gateFileOffset := u64At b 0
  gateReadBytes := u64At b 8
  gateDstOffset := u64At b 16
  upFileOffset := u64At b 24
  upReadBytes := u64At b 32
  upDstOffset := u64At b 40
  downFileOffset := u64At b 48
  downReadBytes := u64At b 56
  downDstOffset := u64At b 64

def encodeRecord (r : ExpertRecord) : Bytes :=
  toLE 4 r.layer.toNat ++ toLE 4 r.expert.toNat ++ toLE 8 r.fileOffset.toNat ++
    toLE 8 r.readBytes.toNat ++ toLE 8 r.payloadBytes.toNat ++ toLE 8 r.gateOff.toNat ++
    toLE 8 r.gateBytes.toNat ++ toLE 8 r.upOff.toNat ++ toLE 8 r.upBytes.toNat ++
    toLE 8 r.downOff.toNat ++ toLE 8 r.downBytes.toNat

def encodeSource (q : GgufQ8Source) : Bytes :=
  toLE 8 q.gateFileOffset.toNat ++ toLE 8 q.gateReadBytes.toNat ++ toLE 8 q.gateDstOffset.toNat ++
    toLE 8 q.upFileOffset.toNat ++ toLE 8 q.upReadBytes.toNat ++ toLE 8 q.upDstOffset.toNat ++
    toLE 8 q.downFileOffset.toNat ++ toLE 8 q.downReadBytes.toNat ++ toLE 8 q.downDstOffset.toNat

/-- `fread` of `n` structs of `size` bytes each: the structs and what follows them. -/
def freadMany {α : Type*} (decode : Bytes → α) (size : Nat) : Nat → Bytes → Option (List α × Bytes)
  | 0, b => some ([], b)
  | n + 1, b =>
    if b.length < size then none
    else (freadMany decode size n (b.drop size)).map fun rest =>
      (decode (b.take size) :: rest.1, rest.2)

/-- The checks on one of the three parts; every sum is a `uint64_t` and wraps. -/
def ggufPartOk (dataFileBytes readBytes srcOff srcBytes dstOff payloadOff payloadBytes : UInt64) :
    Bool :=
  !(srcBytes == 0 || srcOff % 4096 != 0 || srcBytes % 4096 != 0 || dstOff % 4096 != 0 ||
    dstOff + srcBytes > readBytes || srcOff + srcBytes > dataFileBytes ||
    payloadOff < dstOff || payloadOff + payloadBytes > dstOff + srcBytes)

def validateGgufSource (hdr : ExpertIndexHeader) (r : ExpertRecord) (q : GgufQ8Source) : Bool :=
  ggufPartOk hdr.dataFileBytes r.readBytes q.gateFileOffset q.gateReadBytes q.gateDstOffset
      r.gateOff r.gateBytes &&
    ggufPartOk hdr.dataFileBytes r.readBytes q.upFileOffset q.upReadBytes q.upDstOffset
      r.upOff r.upBytes &&
    ggufPartOk hdr.dataFileBytes r.readBytes q.downFileOffset q.downReadBytes q.downDstOffset
      r.downOff r.downBytes &&
    q.gateReadBytes + q.upReadBytes + q.downReadBytes == r.readBytes

/-- The sources of a GGUF index, each checked against its record. -/
def readGgufSources (hdr : ExpertIndexHeader) (records : List ExpertRecord) (b : Bytes) :
    Option (Option (List GgufQ8Source)) :=
  if hdr.dtype = dtypeGgufQ8 then
    match freadMany decodeGgufQ8Source ggufQ8SourceBytes hdr.nRecords.toNat b with
    | none => none
    | some (sources, _) =>
      if (records.zip sources).all fun rq => validateGgufSource hdr rq.1 rq.2 then
        some (some sources)
      else none
  else some none

/-- The cell of the table a record belongs to. -/
def recordCell (hdr : ExpertIndexHeader) (r : ExpertRecord) : Nat :=
  r.layer.toNat * hdr.nExperts.toNat + r.expert.toNat

/-- One round of the loop that fills `record_of`; an index is stored as an `int32_t`. -/
def enterRecord (hdr : ExpertIndexHeader) (recordOf : Nat → Int) (i : Nat) (r : ExpertRecord) :
    Option (Nat → Int) :=
  if r.layer ≥ hdr.nLayers ∨ r.expert ≥ hdr.nExperts then none
  else if recordOf (recordCell hdr r) ≥ 0 then none
  else some (Function.update recordOf (recordCell hdr r) (cInt i))

def enterRecords (hdr : ExpertIndexHeader) :
    List ExpertRecord → Nat → (Nat → Int) → Option (Nat → Int)
  | [], _, recordOf => some recordOf
  | r :: rs, i, recordOf =>
    match enterRecord hdr recordOf i r with
    | none => none
    | some recordOf => enterRecords hdr rs (i + 1) recordOf

/-- `file` is the content of the index file, `allocOk` whether all allocations succeed. -/
def readIndex (file : Bytes) (allocOk : Bool) : Option ExpertStore :=
  if file.length < headerBytes then none
  else
    let hdr := decodeHeader file
    if hdr.magic ≠ expertMagic ∨ hdr.version ≠ expertVersion then none
    else if hdr.align ≠ 4096 ∨ hdr.nRecords = 0 then none
    -- fseek takes a long: an offset from 2^63 on is negative there
    else if hdr.recordsOffset.toNat ≥ 2 ^ 63 then none
    else if !allocOk then none
    else
      match freadMany decodeRecord recordBytes hdr.nRecords.toNat
          (file.drop hdr.recordsOffset.toNat) with
      | none => none
      | some (records, rest) =>
        match readGgufSources hdr records rest with
        | none => none
        | some sources =>
          match enterRecords hdr records 0 (fun _ => -1) with
          | none => none
          | some recordOf => some ⟨-1, false, hdr, records, sources, recordOf⟩

theorem freadMany_length {α : Type*} {decode : Bytes → α} {size n : Nat} {b rest : Bytes}
    {xs : List α} (h : freadMany decode size n b = some (xs, rest)) : xs.length = n := by
  induction n generalizing b xs rest with
  | zero =>
    simp only [freadMany, Option.some.injEq, Prod.mk.injEq] at h
    simp [← h.1]
  | succ n ih =>
    unfold freadMany at h
    split at h
    · simp at h
    · obtain ⟨p, hp, hpq⟩ := Option.map_eq_some_iff.mp h
      obtain ⟨rfl, rfl⟩ := Prod.mk.inj hpq
      simp [ih hp]

/-- The table of record indices after the records `done` have been entered. -/
structure TableOk (hdr : ExpertIndexHeader) (done : List ExpertRecord) (recordOf : Nat → Int) :
    Prop where
  ids : ∀ r ∈ done, r.layer < hdr.nLayers ∧ r.expert < hdr.nExperts
  entry : ∀ k, 0 ≤ recordOf k →
    ∃ (i : Nat) (r : ExpertRecord), done[i]? = some r ∧ recordOf k = i ∧ recordCell hdr r = k
  found : ∀ (i : Nat) (r : ExpertRecord), done[i]? = some r → i < 2 ^ 31 → recordOf (recordCell hdr r) = i

theorem tableOk_nil (hdr : ExpertIndexHeader) : TableOk hdr [] fun _ => -1 where
  ids := by simp
  entry := by simp
  found := by simp

theorem cInt_of_nonneg {n : Nat} (hn : n < 2 ^ 32) (h : 0 ≤ cInt n) : cInt n = n := by
  have hlt : n < 2 ^ 31 := by
    by_contra hge
    unfold cInt at h
    rw [Int.bmod_def] at h
    split at h <;> omega
  exact cInt_of_lt hlt

theorem enterRecord_spec {hdr : ExpertIndexHeader} {done : List ExpertRecord} {r : ExpertRecord}
    {recordOf recordOf' : Nat → Int} (h : TableOk hdr done recordOf) (hn : done.length < 2 ^ 32)
    (hstep : enterRecord hdr recordOf done.length r = some recordOf') :
    TableOk hdr (done ++ [r]) recordOf' := by
  unfold enterRecord at hstep
  split at hstep
  · simp at hstep
  rename_i hids
  split at hstep
  · simp at hstep
  rename_i habs
  obtain rfl := Option.some.inj hstep
  push Not at hids
  refine ⟨?_, ?_, ?_⟩
  · intro x hx
    rcases List.mem_append.mp hx with hx | hx
    · exact h.ids x hx
    · rw [List.mem_singleton.mp hx]
      exact ⟨UInt32.not_le.mp hids.1, UInt32.not_le.mp hids.2⟩
  · intro k hk
    by_cases he : k = recordCell hdr r
    · subst k
      rw [Function.update_self] at hk ⊢
      exact ⟨done.length, r, by simp, cInt_of_nonneg hn hk, rfl⟩
    · rw [Function.update_of_ne he] at hk ⊢
      obtain ⟨i, x, hx, hi, hcell⟩ := h.entry k hk
      have hlt := (List.getElem?_eq_some_iff.mp hx).1
      exact ⟨i, x, by rw [List.getElem?_append_left hlt]; exact hx, hi, hcell⟩
  · intro i x hx hi
    by_cases hlt : i < done.length
    · rw [List.getElem?_append_left hlt] at hx
      have hold := h.found i x hx hi
      have hne : recordCell hdr x ≠ recordCell hdr r := by
        intro he
        rw [he] at hold
        omega
      rw [Function.update_of_ne hne]
      exact hold
    · have hlen := (List.getElem?_eq_some_iff.mp hx).1
      simp only [List.length_append, List.length_singleton] at hlen
      obtain rfl : i = done.length := by omega
      obtain rfl : r = x := by simpa using hx
      rw [Function.update_self]
      exact cInt_of_lt hi

theorem enterRecords_spec {hdr : ExpertIndexHeader} {rs done : List ExpertRecord}
    {recordOf recordOf' : Nat → Int} (h : TableOk hdr done recordOf)
    (hn : done.length + rs.length ≤ 2 ^ 32)
    (hrun : enterRecords hdr rs done.length recordOf = some recordOf') :
    TableOk hdr (done ++ rs) recordOf' := by
  induction rs generalizing done recordOf with
  | nil =>
    obtain rfl := Option.some.inj hrun
    simpa using h
  | cons r rs ih =>
    unfold enterRecords at hrun
    split at hrun
    · simp at hrun
    · rename_i next hstep
      rw [List.length_cons] at hn
      have hnext := enterRecord_spec h (by omega) hstep
      have hlen : (done ++ [r]).length = done.length + 1 := by simp
      rw [← hlen] at hrun
      have := ih hnext (by omega) hrun
      rwa [List.append_assoc] at this

/-- What the header and the tables of an accepted index satisfy. -/
structure IndexOk (s : ExpertStore) : Prop where
  magic : s.hdr.magic = expertMagic
  version : s.hdr.version = expertVersion
  align : s.hdr.align = 4096
  nonempty : s.hdr.nRecords ≠ 0
  length : s.records.length = s.hdr.nRecords.toNat
  packed : s.hdr.dtype ≠ dtypeGgufQ8 → s.ggufQ8Sources = none
  gguf : s.hdr.dtype = dtypeGgufQ8 → ∃ qs, s.ggufQ8Sources = some qs ∧
    qs.length = s.hdr.nRecords.toNat ∧
    ∀ rq ∈ s.records.zip qs, validateGgufSource s.hdr rq.1 rq.2 = true
  table : TableOk s.hdr s.records s.recordOf

theorem readGgufSources_packed {hdr : ExpertIndexHeader} {records : List ExpertRecord} {b : Bytes}
    {sources : Option (List GgufQ8Source)} (h : readGgufSources hdr records b = some sources)
    (hdtype : hdr.dtype ≠ dtypeGgufQ8) : sources = none := by
  rw [readGgufSources, if_neg hdtype] at h
  exact (Option.some.inj h).symm

theorem readGgufSources_gguf {hdr : ExpertIndexHeader} {records : List ExpertRecord} {b : Bytes}
    {sources : Option (List GgufQ8Source)} (h : readGgufSources hdr records b = some sources)
    (hdtype : hdr.dtype = dtypeGgufQ8) : ∃ qs, sources = some qs ∧
      qs.length = hdr.nRecords.toNat ∧
      ∀ rq ∈ records.zip qs, validateGgufSource hdr rq.1 rq.2 = true := by
  rw [readGgufSources, if_pos hdtype] at h
  split at h
  · simp at h
  · rename_i qs rest hread
    split at h
    · rename_i hall
      exact ⟨qs, (Option.some.inj h).symm, freadMany_length hread,
        fun rq hrq => List.all_eq_true.mp hall rq hrq⟩
    · simp at h

theorem readIndex_ok {file : Bytes} {allocOk : Bool} {s : ExpertStore}
    (h : readIndex file allocOk = some s) : IndexOk s := by
  unfold readIndex at h
  split at h
  · simp at h
  dsimp only at h
  split at h
  · simp at h
  rename_i hmagic
  split at h
  · simp at h
  rename_i halign
  split at h
  · simp at h
  split at h
  · simp at h
  split at h
  · simp at h
  rename_i records rest hrecords
  split at h
  · simp at h
  rename_i sources hsources
  split at h
  · simp at h
  rename_i recordOf htable
  obtain rfl := Option.some.inj h
  push Not at hmagic halign
  have hlen := freadMany_length hrecords
  have hn := (decodeHeader file).nRecords.toNat_lt
  have hrun := enterRecords_spec (tableOk_nil _) (by simp only [List.length_nil]; omega) htable
  exact ⟨hmagic.1, hmagic.2, halign.1, halign.2, hlen, readGgufSources_packed hsources,
    readGgufSources_gguf hsources, hrun⟩

/-- The converse, for an index whose parts have been evaluated. -/
theorem readIndex_eq_some {file rest : Bytes} {hdr : ExpertIndexHeader}
    {records : List ExpertRecord} {sources : Option (List GgufQ8Source)} {recordOf : Nat → Int}
    (hlen : headerBytes ≤ file.length) (hhdr : decodeHeader file = hdr)
    (hmagic : hdr.magic = expertMagic ∧ hdr.version = expertVersion)
    (halign : hdr.align = 4096 ∧ hdr.nRecords ≠ 0) (hoff : hdr.recordsOffset.toNat < 2 ^ 63)
    (hrecords : freadMany decodeRecord recordBytes hdr.nRecords.toNat
      (file.drop hdr.recordsOffset.toNat) = some (records, rest))
    (hsources : readGgufSources hdr records rest = some sources)
    (htable : enterRecords hdr records 0 (fun _ => -1) = some recordOf) :
    readIndex file true = some ⟨-1, false, hdr, records, sources, recordOf⟩ := by
  have hmagic' : ¬ (hdr.magic ≠ expertMagic ∨ hdr.version ≠ expertVersion) := by
    simp [hmagic.1, hmagic.2]
  have halign' : ¬ (hdr.align ≠ 4096 ∨ hdr.nRecords = 0) := by simp [halign.1, halign.2]
  unfold readIndex
  rw [if_neg (Nat.not_lt.mpr hlen)]
  dsimp only
  rw [hhdr, if_neg hmagic', if_neg halign', if_neg (Nat.not_le.mpr hoff)]
  simp [hrecords, hsources, htable]

end Kvl

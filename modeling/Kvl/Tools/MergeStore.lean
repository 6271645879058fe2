import Kvl.Lib.Sums
import Kvl.Store.Encode
import Kvl.Store.Load
import Kvl.Tools.RouterMap

/-!
# Experts that share a payload

`merge_expert_store` copies the payloads of the prototypes of a map, one after another, and
writes an index in which every expert keeps its record but has the payload of its prototype.
-/

namespace Kvl.Merge

set_option autoImplicit false

/-! ### The tool -/

/-- `read_index` of the tools. -/
def readIndexTool (raw : Bytes) : Option (ExpertIndexHeader × List ExpertRecord) :=
  if raw.length < headerBytes then none
  else
    let h := decodeHeader raw
    if h.magic ≠ expertMagic ∨ h.version ≠ expertVersion ∨ h.align ≠ 4096 then none
    else if raw.length < h.recordsOffset.toNat + h.nRecords.toNat * recordBytes then none
    else some (h, (List.range h.nRecords.toNat).map fun i =>
      decodeRecord ((raw.drop (h.recordsOffset.toNat + i * recordBytes)).take recordBytes))

def keyOf (r : ExpertRecord) : Nat × Nat := (r.layer.toNat, r.expert.toNat)

/-- The map of a manifest: a prototype for some of the experts of some of the layers. -/
abbrev LayerMap := Nat → Nat → Option Int

/-- `(layer, prototype)` of a record. -/
def protoKey (m : LayerMap) (r : ExpertRecord) : Nat × Int :=
  (r.layer.toNat, (m r.layer.toNat r.expert.toNat).getD r.expert.toNat)

def byKey (recs : List ExpertRecord) (key : Nat × Int) : Option ExpertRecord :=
  recs.find? fun r => r.layer.toNat = key.1 ∧ (r.expert.toNat : Int) = key.2

/-- `sorted` of the keys that some record refers to. -/
def referenced (recs : List ExpertRecord) (m : LayerMap) : List (Nat × Int) :=
  (recs.map (protoKey m)).dedup.mergeSort fun a b => a.1 < b.1 ∨ (a.1 = b.1 ∧ a.2 ≤ b.2)

structure Copy where
  out : Bytes
  newLocation : Nat × Int → Option Nat

def alignFile (out : Bytes) : Bytes :=
  out ++ List.replicate (-(out.length : Int) % 4096).toNat 0

def copyPayload (srcBin : Bytes) (recs : List ExpertRecord) (c : Copy) (key : Nat × Int) :
    Option Copy :=
  (byKey recs key).bind fun r =>
    if r.fileOffset.toNat % 4096 ≠ 0 ∨ r.readBytes.toNat % 4096 ≠ 0 then none
    else
      let out := alignFile c.out
      let blob := (srcBin.drop r.fileOffset.toNat).take r.readBytes.toNat
      if blob.length ≠ r.readBytes.toNat then none
      else some ⟨out ++ blob, Function.update c.newLocation key (some out.length)⟩

/-- The record of an expert, with the payload of its prototype. -/
def outRecord (recs : List ExpertRecord) (m : LayerMap) (newLocation : Nat × Int → Option Nat)
    (r : ExpertRecord) : Option ExpertRecord :=
  (byKey recs (protoKey m r)).bind fun pr => (newLocation (protoKey m r)).map fun off =>
    { pr with layer := r.layer, expert := r.expert, fileOffset := UInt64.ofNat off }

/-- The header of the new index. -/
def outHeader (h : ExpertIndexHeader) (outBytes : Nat) : ExpertIndexHeader :=
  { h with recordsOffset := 48, dataFileBytes := UInt64.ofNat outBytes }

/-- The new data file and the new index; `none` where the tool stops with an error, or where the
size of the file is no number of an index. -/
def mergeExpertStore (srcBin srcIdx : Bytes) (m : LayerMap) : Option (Bytes × Bytes) :=
  (readIndexTool srcIdx).bind fun index =>
    let h := index.1
    let recs := index.2
    if srcBin.length < h.dataFileBytes.toNat then none
    else if ¬ (recs.map keyOf).Nodup then none
    else if recs.any fun r => (byKey recs (protoKey m r)).isNone then none
    else
      ((referenced recs m).foldlM (copyPayload srcBin recs) ⟨[], fun _ => none⟩).bind fun c =>
        let out := alignFile c.out
        (recs.mapM (outRecord recs m c.newLocation)).bind fun records =>
          if 2 ^ 64 ≤ out.length then none
          else some (out, encodeIndex (outHeader h out.length) records [])

/-! ### Reading an index -/

theorem freadMany_records {α : Type*} {decode : Bytes → α} {size n : Nat} {b rest : Bytes}
    {xs : List α} (h : freadMany decode size n b = some (xs, rest)) :
    n * size ≤ b.length ∧ xs = (List.range n).map fun i => decode ((b.drop (i * size)).take size) := by
  induction n generalizing b xs with
  | zero =>
    obtain ⟨rfl, -⟩ := Prod.mk.inj (Option.some.inj h)
    exact ⟨by rw [Nat.zero_mul]; exact Nat.zero_le _, rfl⟩
  | succ n ih =>
    unfold freadMany at h
    split at h
    · cases h
    · rename_i hlong
      obtain ⟨p, hp, hpq⟩ := Option.map_eq_some_iff.mp h
      obtain ⟨rfl, rfl⟩ := Prod.mk.inj hpq
      obtain ⟨hlen, hxs⟩ := ih hp
      rw [List.length_drop] at hlen
      refine ⟨by rw [Nat.succ_mul]; omega, ?_⟩
      rw [List.range_succ_eq_map, List.map_cons, List.map_map, hxs, Nat.zero_mul, List.drop_zero]
      congr 1
      apply List.map_congr_left
      intro i _
      rw [List.drop_drop, Function.comp_apply, Nat.succ_mul, Nat.add_comm size]

/-- What the runtime accepts, the tools read the same. -/
theorem readIndex_tool {file : Bytes} {s : ExpertStore} (h : readIndex file true = some s) :
    readIndexTool file = some (s.hdr, s.records) ∧
      enterRecords s.hdr s.records 0 (fun _ => -1) = some s.recordOf := by
  unfold readIndex at h
  split at h
  · cases h
  rename_i hlen
  dsimp only at h
  split at h
  · cases h
  rename_i hmagic
  split at h
  · cases h
  rename_i halign
  split at h
  · cases h
  split at h
  · cases h
  split at h
  · cases h
  rename_i records rest hrecords
  split at h
  · cases h
  split at h
  · cases h
  rename_i recordOf htable
  obtain rfl := Option.some.inj h
  obtain ⟨hfits, heq⟩ := freadMany_records hrecords
  rw [List.length_drop] at hfits
  refine ⟨?_, htable⟩
  unfold readIndexTool
  push Not at hmagic halign
  rw [if_neg hlen]
  dsimp only
  rw [if_neg (by push Not; exact ⟨hmagic.1, hmagic.2, halign.1⟩), if_neg]
  · rw [heq]
    congr 2
    apply List.map_congr_left
    intro i _
    rw [List.drop_drop]
  · intro hshort
    have hzero : (decodeHeader file).nRecords.toNat ≠ 0 := fun hz =>
      halign.2 (UInt32.toNat_inj.mp hz)
    have hpos : 0 < (decodeHeader file).nRecords.toNat * recordBytes :=
      Nat.mul_pos (Nat.pos_of_ne_zero hzero) (by decide)
    omega

/-- The table depends on the ids of the records and the sizes in the header. -/
theorem enterRecords_congr {hdr hdr' : ExpertIndexHeader} (hlayers : hdr'.nLayers = hdr.nLayers)
    (hexperts : hdr'.nExperts = hdr.nExperts) {g : ExpertRecord → ExpertRecord}
    (hg : ∀ r, (g r).layer = r.layer ∧ (g r).expert = r.expert) (records : List ExpertRecord)
    (i : Nat) (recordOf : Nat → Int) :
    enterRecords hdr' (records.map g) i recordOf = enterRecords hdr records i recordOf := by
  induction records generalizing i recordOf with
  | nil => rfl
  | cons r rest ih =>
    have hone : enterRecord hdr' recordOf i (g r) = enterRecord hdr recordOf i r := by
      unfold enterRecord recordCell
      rw [hlayers, hexperts, (hg r).1, (hg r).2]
    rw [List.map_cons, enterRecords, enterRecords, hone]
    cases enterRecord hdr recordOf i r with
    | none => rfl
    | some recordOf => exact ih (i + 1) recordOf

/-! ### Copying the payloads -/

theorem alignFile_aligned {out : Bytes} (h : out.length % 4096 = 0) : alignFile out = out := by
  have hzero : (-(out.length : Int) % 4096).toNat = 0 := by omega
  rw [alignFile, hzero, List.replicate_zero, List.append_nil]

/-- The bytes of a record. -/
def payload (bin : Bytes) (off n : Nat) : Bytes := (bin.drop off).take n

theorem payload_append {bin more : Bytes} {off n : Nat} (h : off + n ≤ bin.length) :
    payload (bin ++ more) off n = payload bin off n := by
  unfold payload
  rw [List.drop_append_of_le_length (by omega), List.take_append_of_le_length]
  rw [List.length_drop]
  omega

theorem payload_getD {bin : Bytes} {off n i : Nat} (h : i < n) :
    (payload bin off n).getD i 0 = bin.getD (off + i) 0 := by
  unfold payload
  rw [List.getD_eq_getElem?_getD, List.getElem?_take_of_lt h, List.getElem?_drop,
    List.getD_eq_getElem?_getD]

variable {srcBin : Bytes} {recs : List ExpertRecord}

/-- Where the payload of a key went. -/
structure Stored (srcBin : Bytes) (recs : List ExpertRecord) (c : Copy) (key : Nat × Int)
    (r : ExpertRecord) (off : Nat) : Prop where
  record : byKey recs key = some r
  location : c.newLocation key = some off
  aligned : off % 4096 = 0
  inside : off + r.readBytes.toNat ≤ c.out.length
  bytes : payload c.out off r.readBytes.toNat = payload srcBin r.fileOffset.toNat r.readBytes.toNat

/-- The size of the payload of a key. -/
def payloadBytes (recs : List ExpertRecord) (key : Nat × Int) : Nat :=
  ((byKey recs key).map fun r => r.readBytes.toNat).getD 0

/-- The payloads of the keys `done` lie one after another. -/
structure Copied (srcBin : Bytes) (recs : List ExpertRecord) (done : List (Nat × Int)) (c : Copy) :
    Prop where
  aligned : c.out.length % 4096 = 0
  total : c.out.length = (done.map (payloadBytes recs)).sum
  stored : ∀ key ∈ done, ∃ r off, Stored srcBin recs c key r off
  disjoint : ∀ key ∈ done, ∀ key' ∈ done, key ≠ key' → ∀ r off r' off',
    Stored srcBin recs c key r off → Stored srcBin recs c key' r' off' →
      off + r.readBytes.toNat ≤ off' ∨ off' + r'.readBytes.toNat ≤ off

theorem copied_nil : Copied srcBin recs [] ⟨[], fun _ => none⟩ :=
  ⟨rfl, rfl, fun _ h => absurd h List.not_mem_nil, fun _ h => absurd h List.not_mem_nil⟩

/-- What a copied key needs of its record. -/
structure Copyable (srcBin : Bytes) (recs : List ExpertRecord) (key : Nat × Int) (r : ExpertRecord) :
    Prop where
  record : byKey recs key = some r
  offset : r.fileOffset.toNat % 4096 = 0
  bytes : r.readBytes.toNat % 4096 = 0
  read : (payload srcBin r.fileOffset.toNat r.readBytes.toNat).length = r.readBytes.toNat

theorem copyPayload_eq_some {c c' : Copy} {key : Nat × Int} (haligned : c.out.length % 4096 = 0) :
    copyPayload srcBin recs c key = some c' ↔ ∃ r, Copyable srcBin recs key r ∧
      c' = ⟨c.out ++ payload srcBin r.fileOffset.toNat r.readBytes.toNat,
        Function.update c.newLocation key (some c.out.length)⟩ := by
  unfold copyPayload
  rw [alignFile_aligned haligned]
  constructor
  · intro h
    obtain ⟨r, hr, h⟩ := Option.bind_eq_some_iff.mp h
    split at h
    · cases h
    · rename_i hoff
      push Not at hoff
      dsimp only at h
      split at h
      · cases h
      · rename_i hread
        exact ⟨r, ⟨hr, hoff.1, hoff.2, not_not.mp hread⟩, (Option.some.inj h).symm⟩
  · rintro ⟨r, ⟨hr, hoff, hbytes, hread⟩, rfl⟩
    rw [hr, Option.bind_some, if_neg (by push Not; exact ⟨hoff, hbytes⟩)]
    exact if_neg (not_not.mpr hread)

theorem Copied.step {done : List (Nat × Int)} {c c' : Copy} {key : Nat × Int}
    (h : Copied srcBin recs done c) (hnew : key ∉ done)
    (hstep : copyPayload srcBin recs c key = some c') : Copied srcBin recs (done ++ [key]) c' := by
  obtain ⟨r, hr, rfl⟩ := (copyPayload_eq_some h.aligned).mp hstep
  have hlen : (c.out ++ payload srcBin r.fileOffset.toNat r.readBytes.toNat).length =
      c.out.length + r.readBytes.toNat := by rw [List.length_append, hr.read]
  have hlast : Stored srcBin recs ⟨c.out ++ payload srcBin r.fileOffset.toNat r.readBytes.toNat,
      Function.update c.newLocation key (some c.out.length)⟩ key r c.out.length := by
    refine ⟨hr.record, Function.update_self .., h.aligned, hlen.ge, ?_⟩
    show payload (c.out ++ _) c.out.length _ = _
    rw [payload, List.drop_left' rfl]
    exact List.take_of_length_le hr.read.le
  have hold : ∀ key' ∈ done, ∀ r' off', Stored srcBin recs ⟨c.out ++
      payload srcBin r.fileOffset.toNat r.readBytes.toNat,
      Function.update c.newLocation key (some c.out.length)⟩ key' r' off' ↔
        Stored srcBin recs c key' r' off' := by
    intro key' hkey' r' off'
    have hne : key' ≠ key := fun heq => hnew (heq ▸ hkey')
    obtain ⟨r₁, off₁, hs⟩ := h.stored key' hkey'
    have hsame : ∀ {d : Copy}, d.newLocation key' = c.newLocation key' →
        Stored srcBin recs d key' r' off' → r' = r₁ ∧ off' = off₁ := by
      intro d hd hs'
      exact ⟨Option.some.inj (hs'.record.symm.trans hs.record),
        Option.some.inj (hs'.location.symm.trans (hd.trans hs.location))⟩
    have hloc : Function.update c.newLocation key (some c.out.length) key' = c.newLocation key' :=
      Function.update_of_ne hne ..
    constructor
    · intro hs'
      obtain ⟨rfl, rfl⟩ := hsame hloc hs'
      exact hs
    · intro hs'
      refine ⟨hs'.record, hloc.trans hs'.location, hs'.aligned, ?_, ?_⟩
      · rw [hlen]
        exact Nat.le_add_right_of_le hs'.inside
      · rw [payload_append hs'.inside]
        exact hs'.bytes
  refine ⟨?_, ?_, ?_, ?_⟩
  · have haligned := h.aligned
    have hbytes := hr.bytes
    rw [hlen]
    omega
  · rw [hlen, h.total, List.map_append, List.sum_append, List.map_singleton, List.sum_singleton,
      payloadBytes, hr.record]
    rfl
  · intro key' hkey'
    rcases List.mem_append.mp hkey' with hbefore | hself
    · obtain ⟨r', off', hs⟩ := h.stored key' hbefore
      exact ⟨r', off', (hold key' hbefore r' off').mpr hs⟩
    · rw [List.mem_singleton.mp hself]
      exact ⟨r, _, hlast⟩
  · -- a payload copied before ends where the new one begins
    have hbeside : ∀ key' ∈ done, ∀ r₁ off₁ r' off',
        Stored srcBin recs ⟨c.out ++ payload srcBin r.fileOffset.toNat r.readBytes.toNat,
          Function.update c.newLocation key (some c.out.length)⟩ key r₁ off₁ →
        Stored srcBin recs ⟨c.out ++ payload srcBin r.fileOffset.toNat r.readBytes.toNat,
          Function.update c.newLocation key (some c.out.length)⟩ key' r' off' →
        off' + r'.readBytes.toNat ≤ off₁ := by
      intro key' hkey' r₁ off₁ r' off' hs hs'
      have hoff : c.out.length = off₁ :=
        Option.some.inj (hlast.location.symm.trans hs.location)
      rw [← hoff]
      exact ((hold key' hkey' r' off').mp hs').inside
    intro key₁ h₁ key₂ h₂ hne r₁ off₁ r₂ off₂ hs₁ hs₂
    rcases List.mem_append.mp h₁ with hb₁ | hself₁ <;> rcases List.mem_append.mp h₂ with hb₂ | hself₂
    · exact h.disjoint key₁ hb₁ key₂ hb₂ hne r₁ off₁ r₂ off₂ ((hold key₁ hb₁ r₁ off₁).mp hs₁)
        ((hold key₂ hb₂ r₂ off₂).mp hs₂)
    · obtain rfl := List.mem_singleton.mp hself₂
      exact Or.inl (hbeside key₁ hb₁ r₂ off₂ r₁ off₁ hs₂ hs₁)
    · obtain rfl := List.mem_singleton.mp hself₁
      exact Or.inr (hbeside key₂ hb₂ r₁ off₁ r₂ off₂ hs₁ hs₂)
    · exact absurd ((List.mem_singleton.mp hself₁).trans (List.mem_singleton.mp hself₂).symm) hne

theorem Copied.run (todo : List (Nat × Int)) {done : List (Nat × Int)} {c c' : Copy}
    (h : Copied srcBin recs done c)
    (hnodup : (done ++ todo).Nodup) (hrun : todo.foldlM (copyPayload srcBin recs) c = some c') :
    Copied srcBin recs (done ++ todo) c' := by
  induction todo generalizing done c with
  | nil =>
    obtain rfl : c = c' := Option.some.inj hrun
    rwa [List.append_nil]
  | cons key todo ih =>
    rw [List.foldlM_cons] at hrun
    obtain ⟨c₁, hstep, hrun⟩ := Option.bind_eq_some_iff.mp hrun
    have hnew : key ∉ done := by
      intro hmem
      exact (List.nodup_append.mp hnodup).2.2 key hmem key List.mem_cons_self rfl
    rw [List.append_cons] at hnodup ⊢
    exact ih (h.step hnew hstep) hnodup hrun

theorem copy_isSome {todo : List (Nat × Int)} (h : ∀ key ∈ todo, ∃ r, Copyable srcBin recs key r)
    (c : Copy) (haligned : c.out.length % 4096 = 0) :
    ∃ c', todo.foldlM (copyPayload srcBin recs) c = some c' := by
  induction todo generalizing c with
  | nil => exact ⟨c, rfl⟩
  | cons key todo ih =>
    obtain ⟨r, hr⟩ := h key List.mem_cons_self
    have hstep := (copyPayload_eq_some haligned).mpr ⟨r, hr, rfl⟩
    rw [List.foldlM_cons, hstep]
    apply ih fun key' hkey' => h key' (List.mem_cons_of_mem _ hkey')
    have hbytes := hr.bytes
    rw [List.length_append, hr.read]
    omega

/-! ### The new store -/

theorem mem_referenced {m : LayerMap} {key : Nat × Int} :
    key ∈ referenced recs m ↔ ∃ r ∈ recs, protoKey m r = key := by
  unfold referenced
  rw [List.mem_mergeSort, List.mem_dedup, List.mem_map]

theorem referenced_nodup (m : LayerMap) : (referenced recs m).Nodup :=
  (List.mergeSort_perm _ _).nodup_iff.mpr (List.nodup_dedup _)

theorem byKey_some {key : Nat × Int} {pr : ExpertRecord} (h : byKey recs key = some pr) :
    pr ∈ recs ∧ pr.layer.toNat = key.1 ∧ (pr.expert.toNat : Int) = key.2 := by
  obtain ⟨hids, -⟩ := List.find?_eq_some_iff_append.mp h
  exact ⟨List.mem_of_find?_eq_some h, of_decide_eq_true hids⟩

/-- The record that an expert gets. -/
def servedRecord (recs : List ExpertRecord) (m : LayerMap) (c : Copy) (r : ExpertRecord) :
    ExpertRecord :=
  { (byKey recs (protoKey m r)).getD default with
    layer := r.layer, expert := r.expert
    fileOffset := UInt64.ofNat ((c.newLocation (protoKey m r)).getD 0) }

theorem outRecords_eq {m : LayerMap} {c : Copy} (hcopied : Copied srcBin recs (referenced recs m) c) :
    recs.mapM (outRecord recs m c.newLocation) = some (recs.map (servedRecord recs m c)) := by
  apply Sums.mapM_some
  intro r hr
  obtain ⟨pr, off, hs⟩ := hcopied.stored _ (mem_referenced.mpr ⟨r, hr, rfl⟩)
  rw [outRecord, servedRecord, hs.record, hs.location]
  rfl

/-- Different keys belong to different cells of the table. -/
theorem recordCell_nodup {hdr : ExpertIndexHeader} (hids : ∀ r ∈ recs, r.expert < hdr.nExperts)
    (hkeys : (recs.map keyOf).Nodup) : (recs.map (recordCell hdr)).Nodup := by
  have hrecs : recs.Nodup := List.Nodup.of_map _ hkeys
  refine List.Nodup.map_on (fun r hr r' hr' hcell => ?_) hrecs
  apply List.inj_on_of_nodup_map hkeys hr hr'
  have hlt : r.expert.toNat < hdr.nExperts.toNat := UInt32.lt_iff_toNat_lt.mp (hids r hr)
  have hlt' : r'.expert.toNat < hdr.nExperts.toNat := UInt32.lt_iff_toNat_lt.mp (hids r' hr')
  unfold recordCell at hcell
  have hpos : 0 < hdr.nExperts.toNat := Nat.zero_lt_of_lt hlt
  have hlayer : r.layer.toNat = r'.layer.toNat := by
    have hdiv := congrArg (· / hdr.nExperts.toNat) hcell
    rwa [Nat.mul_comm, Nat.mul_comm r'.layer.toNat, Nat.mul_add_div hpos, Nat.mul_add_div hpos,
      Nat.div_eq_of_lt hlt, Nat.div_eq_of_lt hlt', Nat.add_zero, Nat.add_zero] at hdiv
  rw [hlayer, Nat.add_left_cancel_iff] at hcell
  exact Prod.ext hlayer hcell

/-- A store that was merged: the same ids, and for every expert the payload and the metadata of
its prototype. -/
structure MergedStore (srcBin outBin : Bytes) (src dst : ExpertStore) (m : LayerMap) : Prop where
  table : dst.recordOf = src.recordOf
  count : dst.records.length = src.records.length
  total : outBin.length = ((referenced src.records m).map (payloadBytes src.records)).sum
  served : ∀ i < src.records.length, ∃ j, j < src.records.length ∧
    (src.record j).layer = (src.record i).layer ∧
    ((src.record j).expert.toNat : Int) = (protoKey m (src.record i)).2 ∧
    dst.record i = { src.record j with
      layer := (src.record i).layer, expert := (src.record i).expert
      fileOffset := (dst.record i).fileOffset } ∧
    (dst.record i).fileOffset.toNat % 4096 = 0 ∧
    (dst.record i).fileOffset.toNat + (dst.record i).readBytes.toNat ≤ outBin.length ∧
    ∀ slot, kvlExpertLoad dst (fun k => outBin.getD k 0) i slot =
      kvlExpertLoad src (fun k => srcBin.getD k 0) j slot
  shared : ∀ i < src.records.length, ∀ i' < src.records.length,
    protoKey m (src.record i) = protoKey m (src.record i') →
      (dst.record i).fileOffset = (dst.record i').fileOffset
  disjoint : ∀ i < src.records.length, ∀ i' < src.records.length,
    protoKey m (src.record i) ≠ protoKey m (src.record i') →
      (dst.record i).fileOffset.toNat + (dst.record i).readBytes.toNat ≤
          (dst.record i').fileOffset.toNat ∨
        (dst.record i').fileOffset.toNat + (dst.record i').readBytes.toNat ≤
          (dst.record i).fileOffset.toNat

theorem mergedStore_of_copied {src dst : ExpertStore} {m : LayerMap} {c : Copy}
    (hcopied : Copied srcBin src.records (referenced src.records m) c)
    (hfits : c.out.length < 2 ^ 64) (hpacked : src.hdr.dtype ≠ dtypeGgufQ8)
    (hdtype : dst.hdr.dtype = src.hdr.dtype) (htable : dst.recordOf = src.recordOf)
    (hrecords : dst.records = src.records.map (servedRecord src.records m c)) :
    MergedStore srcBin c.out src dst m := by
  have hrecord : ∀ i < src.records.length,
      dst.record i = servedRecord src.records m c (src.record i) := by
    intro i hi
    rw [ExpertStore.record, ExpertStore.record, hrecords,
      List.getD_eq_getElem _ _ (by rw [List.length_map]; exact hi), List.getElem_map,
      List.getD_eq_getElem _ _ hi]
  have hstored : ∀ i < src.records.length, ∃ pr off,
      Stored srcBin src.records c (protoKey m (src.record i)) pr off ∧
      dst.record i = { pr with
        layer := (src.record i).layer, expert := (src.record i).expert
        fileOffset := UInt64.ofNat off } ∧ (UInt64.ofNat off).toNat = off := by
    intro i hi
    have hmem : src.record i ∈ src.records := by
      rw [ExpertStore.record, List.getD_eq_getElem _ _ hi]
      exact List.getElem_mem hi
    obtain ⟨pr, off, hs⟩ := hcopied.stored _ (mem_referenced.mpr ⟨_, hmem, rfl⟩)
    refine ⟨pr, off, hs, ?_, ?_⟩
    · rw [hrecord i hi, servedRecord, hs.record, hs.location]
      rfl
    · rw [UInt64.toNat_ofNat']
      exact Nat.mod_eq_of_lt (Nat.lt_of_le_of_lt (Nat.le_of_add_right_le hs.inside) hfits)
  refine ⟨htable, by rw [hrecords, List.length_map], hcopied.total, ?_, ?_, ?_⟩
  · intro i hi
    obtain ⟨pr, off, hs, hdst, hoff⟩ := hstored i hi
    obtain ⟨hpr, hlayer, hexpert⟩ := byKey_some hs.record
    obtain ⟨j, hj, hget⟩ := List.getElem_of_mem hpr
    have hsrc : src.record j = pr := by
      rw [ExpertStore.record, List.getD_eq_getElem _ _ hj]
      exact hget
    refine ⟨j, hj, ?_, ?_, ?_, ?_, ?_, ?_⟩
    · rw [hsrc]
      exact UInt32.toNat_inj.mp hlayer
    · rw [hsrc]
      exact hexpert
    · rw [hsrc, hdst]
    · rw [hdst]
      show (UInt64.ofNat off).toNat % 4096 = 0
      rw [hoff]
      exact hs.aligned
    · rw [hdst]
      show (UInt64.ofNat off).toNat + pr.readBytes.toNat ≤ c.out.length
      rw [hoff]
      exact hs.inside
    · intro slot
      unfold kvlExpertLoad
      rw [hdtype, if_pos hpacked, if_pos hpacked, hdst, hsrc]
      funext k
      unfold preadInto
      by_cases hk : k ∈ span 0 pr.readBytes
      · rw [if_pos hk, if_pos hk]
        have hlt : k < pr.readBytes.toNat := by
          have hhi := hk.2
          rwa [UInt64.toNat_zero, Nat.zero_add] at hhi
        have hbyte := congrArg (fun b => List.getD b k 0) hs.bytes
        rw [payload_getD hlt, payload_getD hlt] at hbyte
        rw [UInt64.toNat_zero, Nat.sub_zero]
        show c.out.getD ((UInt64.ofNat off).toNat + k) 0 = _
        rw [hoff]
        exact hbyte
      · rw [if_neg hk, if_neg hk]
  · intro i hi i' hi' hkey
    rw [hrecord i hi, hrecord i' hi', servedRecord, servedRecord, hkey]
  · intro i hi i' hi' hkey
    obtain ⟨pr, off, hs, hdst, hoff⟩ := hstored i hi
    obtain ⟨pr', off', hs', hdst', hoff'⟩ := hstored i' hi'
    have hmem : ∀ k < src.records.length,
        protoKey m (src.record k) ∈ referenced src.records m := by
      intro k hk
      refine mem_referenced.mpr ⟨_, ?_, rfl⟩
      rw [ExpertStore.record, List.getD_eq_getElem _ _ hk]
      exact List.getElem_mem hk
    have h := hcopied.disjoint _ (hmem i hi) _ (hmem i' hi') hkey pr off pr' off' hs hs'
    rw [hdst, hdst']
    show (UInt64.ofNat off).toNat + _ ≤ (UInt64.ofNat off').toNat ∨
      (UInt64.ofNat off').toNat + _ ≤ (UInt64.ofNat off).toNat
    rw [hoff, hoff']
    exact h

/-- What the tool writes is a merged store. -/
theorem mergeExpertStore_serves {srcIdx outBin outIdx : Bytes} {m : LayerMap} {src : ExpertStore}
    (hopen : readIndex srcIdx true = some src) (hpacked : src.hdr.dtype ≠ dtypeGgufQ8)
    (h : mergeExpertStore srcBin srcIdx m = some (outBin, outIdx)) :
    ∃ dst, readIndex outIdx true = some dst ∧ MergedStore srcBin outBin src dst m := by
  obtain ⟨htool, htable⟩ := readIndex_tool hopen
  have hok := readIndex_ok hopen
  unfold mergeExpertStore at h
  rw [htool, Option.bind_some] at h
  dsimp only at h
  split at h
  · cases h
  split at h
  · cases h
  rename_i hkeys
  split at h
  · cases h
  obtain ⟨c, hcopy, h⟩ := Option.bind_eq_some_iff.mp h
  have hcopied := Copied.run (referenced src.records m) copied_nil
    (referenced_nodup m) hcopy
  rw [List.nil_append] at hcopied
  rw [outRecords_eq hcopied, Option.bind_some, alignFile_aligned hcopied.aligned] at h
  split at h
  · cases h
  rename_i hsize
  obtain ⟨rfl, rfl⟩ := Prod.mk.inj (Option.some.inj h)
  have hids : ∀ r, (servedRecord src.records m c r).layer = r.layer ∧
      (servedRecord src.records m c r).expert = r.expert := fun r => ⟨rfl, rfl⟩
  obtain ⟨recordOf, hentered, hread⟩ := @readIndex_encodeIndex (outHeader src.hdr c.out.length)
    (src.records.map (servedRecord src.records m c)) [] none
    ⟨hok.magic, hok.version, hok.align, by rw [List.length_map]; exact hok.length.symm, rfl⟩
    (by
      intro hnil
      have hlen := hok.length
      rw [List.map_eq_nil_iff.mp hnil, List.length_nil] at hlen
      exact hok.nonempty (UInt32.toNat_inj.mp hlen.symm))
    ⟨by
      intro r hr
      obtain ⟨r₀, hr₀, rfl⟩ := List.mem_map.mp hr
      exact hok.table.ids r₀ hr₀, by
      rw [List.map_map]
      exact recordCell_nodup (fun r hr => (hok.table.ids r hr).2) (not_not.mp hkeys)⟩
    (if_neg hpacked)
  rw [@enterRecords_congr src.hdr (outHeader src.hdr c.out.length) rfl rfl _ hids] at hentered
  exact ⟨_, hread, mergedStore_of_copied hcopied (by omega) hpacked rfl
    (Option.some.inj (hentered.symm.trans htable)) rfl⟩

/-- A packed store and a map that the tool takes. -/
structure Mergeable (srcBin : Bytes) (src : ExpertStore) (m : LayerMap) : Prop where
  data : src.hdr.dataFileBytes.toNat ≤ srcBin.length
  keys : (src.records.map keyOf).Nodup
  present : ∀ r ∈ src.records, ∃ pr, Copyable srcBin src.records (protoKey m r) pr
  fits : ((referenced src.records m).map (payloadBytes src.records)).sum < 2 ^ 64

theorem mergeExpertStore_isSome {srcIdx : Bytes} {m : LayerMap} {src : ExpertStore}
    (hopen : readIndex srcIdx true = some src) (h : Mergeable srcBin src m) :
    ∃ out, mergeExpertStore srcBin srcIdx m = some out := by
  obtain ⟨htool, -⟩ := readIndex_tool hopen
  have hcopyable : ∀ key ∈ referenced src.records m, ∃ r, Copyable srcBin src.records key r := by
    intro key hkey
    obtain ⟨r, hr, rfl⟩ := mem_referenced.mp hkey
    exact h.present r hr
  obtain ⟨c, hcopy⟩ := copy_isSome hcopyable ⟨[], fun _ => none⟩ rfl
  have hcopied := Copied.run (referenced src.records m) copied_nil
    (referenced_nodup m) hcopy
  rw [List.nil_append] at hcopied
  have hpresent : (src.records.any fun r => (byKey src.records (protoKey m r)).isNone) = false := by
    rw [List.any_eq_false]
    intro r hr
    obtain ⟨pr, hpr⟩ := h.present r hr
    rw [hpr.record]
    exact Bool.false_ne_true
  have hsize : ¬ 2 ^ 64 ≤ c.out.length := by
    rw [hcopied.total]
    exact Nat.not_le.mpr h.fits
  unfold mergeExpertStore
  rw [htool, Option.bind_some]
  dsimp only
  rw [if_neg (Nat.not_lt.mpr h.data), if_neg (not_not.mpr h.keys), if_neg (by rw [hpresent]; decide),
    hcopy, Option.bind_some, outRecords_eq hcopied, Option.bind_some,
    alignFile_aligned hcopied.aligned, if_neg hsize]
  exact ⟨_, rfl⟩

/-- The prototypes of a router are a retraction, and a packed store merged along a map serves for
every expert the payload of its prototype, in one copy for each prototype. -/
theorem merging_retraction {K : Type*} [Field K] [LinearOrder K] (sqrt : K → K) :
    (∀ (rows : List (List K)) (keep : Int), 1 ≤ keep → keep ≤ rows.length →
      ∃ p, RouterMap.choosePrototypes sqrt rows.length rows keep = some p ∧
        RouterMap.Retraction (RouterMap.similarity sqrt rows) rows.length keep.toNat p) ∧
    ∀ (bin idx : Bytes) (m : LayerMap) (src : ExpertStore), readIndex idx true = some src →
      src.hdr.dtype ≠ dtypeGgufQ8 →
        (Mergeable bin src m → ∃ out, mergeExpertStore bin idx m = some out) ∧
        ∀ outBin outIdx, mergeExpertStore bin idx m = some (outBin, outIdx) →
          ∃ dst, readIndex outIdx true = some dst ∧ MergedStore bin outBin src dst m :=
  ⟨fun _ _ hlo hhi => RouterMap.choosePrototypes_spec sqrt hlo hhi,
    fun _ _ _ _ hopen hpacked => ⟨mergeExpertStore_isSome hopen,
      fun _ _ h => mergeExpertStore_serves hopen hpacked h⟩⟩

/-- Two of three rows. -/
theorem merging_retraction_threeRows :
    ∃ p, RouterMap.choosePrototypes id 3 [[(3 : ℚ), 0], [2, 1], [0, 3]] 2 = some p ∧
      p.chosen.length = 2 := by
  obtain ⟨p, hp, hretract⟩ := (merging_retraction (id : ℚ → ℚ)).1 [[3, 0], [2, 1], [0, 3]] 2
    (by decide) (by decide)
  exact ⟨p, hp, hretract.length⟩

end Kvl.Merge

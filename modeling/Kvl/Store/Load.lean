import Kvl.Cache.Packed

/-!
# Reading an expert into a slot

`kvl_expert_load` on the bytes of one slot. A packed record is one positioned
read, a GGUF record three, each to its own place in the slot. A read writes
where its source says, so it stays in the slot only if the source does.
-/

namespace Kvl

set_option autoImplicit false

/-- The bytes of a slot, counted from its base. -/
abbrev SlotMemory := Nat → UInt8

instance (off bytes : UInt64) (i : Nat) : Decidable (i ∈ span off bytes) := by
  unfold span
  infer_instance

/-- A complete `kvl_pread` of `bytes` bytes at `off` to the address `dst`. -/
def preadInto (file : Nat → UInt8) (off bytes dst : UInt64) (m : SlotMemory) : SlotMemory := fun i =>
  if i ∈ span dst bytes then file (off.toNat + (i - dst.toNat)) else m i

/-- `&s->gguf_q8_sources[idx]`, where the store has one. -/
def ExpertStore.sourceOf (s : ExpertStore) (r : Nat) : Option GgufQ8Source :=
  s.ggufQ8Sources.bind fun sources => sources[r]?

def readGgufQ8 (file : Nat → UInt8) (q : GgufQ8Source) (m : SlotMemory) : SlotMemory :=
  let m := preadInto file q.gateFileOffset q.gateReadBytes q.gateDstOffset m
  let m := preadInto file q.upFileOffset q.upReadBytes q.upDstOffset m
  preadInto file q.downFileOffset q.downReadBytes q.downDstOffset m

/-- The slot after a load that delivers every byte. A GGUF record without a
source is refused before the first read. -/
def kvlExpertLoad (s : ExpertStore) (file : Nat → UInt8) (r : Nat) (m : SlotMemory) : SlotMemory :=
  if s.hdr.dtype ≠ dtypeGgufQ8 then
    preadInto file (s.record r).fileOffset (s.record r).readBytes 0 m
  else
    match s.sourceOf r with
    | none => m
    | some q => readGgufQ8 file q m

/-- The three reads of a GGUF record end inside a slot of `slotBytes` bytes. -/
def loadInside (s : ExpertStore) (slotBytes r : Nat) : Bool :=
  match s.sourceOf r with
  | none => true
  | some q =>
    decide (q.gateDstOffset.toNat + q.gateReadBytes.toNat ≤ slotBytes) &&
      decide (q.upDstOffset.toNat + q.upReadBytes.toNat ≤ slotBytes) &&
      decide (q.downDstOffset.toNat + q.downReadBytes.toNat ≤ slotBytes)

/-- The three matrices a view of record `r` points to end inside the slot. -/
def viewInside (s : ExpertStore) (slotBytes r : Nat) : Bool :=
  decide ((s.record r).gateOff.toNat + (s.record r).gateBytes.toNat ≤ slotBytes) &&
    decide ((s.record r).upOff.toNat + (s.record r).upBytes.toNat ≤ slotBytes) &&
    decide ((s.record r).downOff.toNat + (s.record r).downBytes.toNat ≤ slotBytes)

variable {s : ExpertStore} {file : Nat → UInt8}

theorem preadInto_of_mem {off bytes dst : UInt64} {m : SlotMemory} {i : Nat}
    (h : i ∈ span dst bytes) :
    preadInto file off bytes dst m i = file (off.toNat + (i - dst.toNat)) := if_pos h

theorem IndexOk.source (h : IndexOk s) (hdtype : s.hdr.dtype = dtypeGgufQ8) {r : Nat}
    (hr : r < s.hdr.nRecords.toNat) :
    ∃ q, s.sourceOf r = some q ∧ validateGgufSource s.hdr (s.record r) q = true := by
  obtain ⟨qs, hqs, hlen, hall⟩ := h.gguf hdtype
  have hq : r < qs.length := by omega
  have hrec : r < s.records.length := by
    rw [h.length]
    exact hr
  refine ⟨qs[r], by simp [ExpertStore.sourceOf, hqs, hq], ?_⟩
  have hzip : (s.records[r], qs[r]) ∈ s.records.zip qs := by
    rw [List.mem_iff_getElem]
    exact ⟨r, by simp [hrec, hq], by simp⟩
  have hval := hall _ hzip
  rwa [ExpertStore.record, List.getD_eq_getElem _ _ hrec]

end Kvl

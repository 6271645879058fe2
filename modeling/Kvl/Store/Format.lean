import Mathlib

/-!
# The expert store in memory

The packed structs of `format.h` and the opened `KvlExpertStore`. Fields keep
the widths of the source; a size or an offset becomes a natural number only
where the code reads it. Pointers into `records` are record indices.
-/

namespace Kvl

set_option autoImplicit false

abbrev Bytes := List UInt8

/-- `KVL_EXPERT_MAGIC`, the eight characters `KVLXPRT1`. -/
def expertMagic : Bytes := [75, 86, 76, 88, 80, 82, 84, 49]

def expertVersion : UInt32 := 1
def expertAlign : Nat := 4096

def dtypeBF16 : UInt32 := 1
def dtypeMXFP4 : UInt32 := 2
def dtypeQ8Row : UInt32 := 3
def dtypeQ5G128 : UInt32 := 4
def dtypeGgufQ8 : UInt32 := 5

structure ExpertIndexHeader where
  magic : Bytes
  version : UInt32
  align : UInt32
  nLayers : UInt32
  nExperts : UInt32
  nRecords : UInt32
  dtype : UInt32
  recordsOffset : UInt64
  dataFileBytes : UInt64
  deriving DecidableEq, Repr, Inhabited

structure ExpertRecord where
  layer : UInt32
  expert : UInt32
  fileOffset : UInt64
  readBytes : UInt64
  payloadBytes : UInt64
  gateOff : UInt64
  gateBytes : UInt64
  upOff : UInt64
  upBytes : UInt64
  downOff : UInt64
  downBytes : UInt64
  deriving DecidableEq, Repr, Inhabited

/-- Three aligned positioned reads that fill one cache slot from a GGUF file. -/
structure GgufQ8Source where
  gateFileOffset : UInt64
  gateReadBytes : UInt64
  gateDstOffset : UInt64
  upFileOffset : UInt64
  upReadBytes : UInt64
  upDstOffset : UInt64
  downFileOffset : UInt64
  downReadBytes : UInt64
  downDstOffset : UInt64
  deriving DecidableEq, Repr, Inhabited

structure ExpertStore where
  fd : Int
  directIo : Bool
  hdr : ExpertIndexHeader
  records : List ExpertRecord
  /-- `NULL` unless the dtype is `dtypeGgufQ8`. -/
  ggufQ8Sources : Option (List GgufQ8Source)
  /-- `layer * n_experts + expert` to record index, negative if absent. -/
  recordOf : Nat → Int

/-- A C conversion to `int`: the low 32 bits, read as two's complement. -/
def cInt (n : Nat) : Int := Int.bmod n (2 ^ 32)

theorem cInt_le (n : Nat) : cInt n ≤ n := by
  unfold cInt
  have := Int.bmod_le (x := (n : Int)) (m := 2 ^ 32) (by norm_num)
  by_cases hn : n < 2 ^ 31
  · rw [Int.bmod_eq_of_le] <;> omega
  · omega

theorem cInt_of_lt {n : Nat} (h : n < 2 ^ 31) : cInt n = n := by
  unfold cInt
  rw [Int.bmod_eq_of_le] <;> omega

namespace ExpertStore

variable (s : ExpertStore)

def nLayers : Nat := s.hdr.nLayers.toNat
def nExperts : Nat := s.hdr.nExperts.toNat

/-- The number of `(layer, expert)` cells, the length of every table over them. -/
def mapN : Nat := s.nLayers * s.nExperts

/-- `s->records[i]`. -/
def record (i : Nat) : ExpertRecord := s.records.getD i default

/-- The record index a cell holds, if the expert is present. -/
def recordAt (k : Nat) : Option Nat :=
  if s.recordOf k < 0 then none else some (s.recordOf k).toNat

end ExpertStore

/-- Whether both C comparisons of an id against its header count pass. -/
def idsInRange (s : ExpertStore) (layer expert : Int) : Prop :=
  0 ≤ layer ∧ 0 ≤ expert ∧ layer < cInt s.nLayers ∧ expert < cInt s.nExperts

instance (s : ExpertStore) (layer expert : Int) : Decidable (idsInRange s layer expert) := by
  unfold idsInRange
  infer_instance

def flatKey (s : ExpertStore) (layer expert : Int) : Nat :=
  layer.toNat * s.nExperts + expert.toNat

/-- The record index of an expert, `none` for `NULL`. -/
def kvlExpertFind (s : ExpertStore) (layer expert : Int) : Option Nat :=
  if idsInRange s layer expert then s.recordAt (flatKey s layer expert) else none

/-- One positioned read for a packed store, three for a GGUF one. -/
def kvlExpertLoadReadOps (s : ExpertStore) : Nat :=
  if s.hdr.dtype = dtypeGgufQ8 then 3 else 1

theorem flatKey_lt {s : ExpertStore} {layer expert : Int} (h : idsInRange s layer expert) :
    flatKey s layer expert < s.mapN := by
  obtain ⟨hl, he, hlt, het⟩ := h
  have hL := cInt_le s.nLayers
  have hE := cInt_le s.nExperts
  have hlayer : layer.toNat + 1 ≤ s.nLayers := by omega
  have hexpert : expert.toNat < s.nExperts := by omega
  have hmul := Nat.mul_le_mul_right s.nExperts hlayer
  unfold flatKey ExpertStore.mapN
  rw [Nat.add_mul, Nat.one_mul] at hmul
  omega

theorem flatKey_inj {s : ExpertStore} {layer expert layer' expert' : Int}
    (h : idsInRange s layer expert) (h' : idsInRange s layer' expert')
    (heq : flatKey s layer expert = flatKey s layer' expert') :
    layer = layer' ∧ expert = expert' := by
  obtain ⟨hl, he, _, het⟩ := h
  obtain ⟨hl', he', _, het'⟩ := h'
  have hE := cInt_le s.nExperts
  have hx : expert.toNat < s.nExperts := by omega
  have hx' : expert'.toNat < s.nExperts := by omega
  unfold flatKey at heq
  have hmod := congrArg (· % s.nExperts) heq
  have hdiv := congrArg (· / s.nExperts) heq
  have hpos : 0 < s.nExperts := by omega
  simp only [Nat.mul_add_mod', Nat.mod_eq_of_lt hx, Nat.mod_eq_of_lt hx'] at hmod
  simp only [Nat.mul_comm _ s.nExperts, Nat.mul_add_div hpos, Nat.div_eq_of_lt hx,
    Nat.div_eq_of_lt hx', Nat.add_zero] at hdiv
  omega

end Kvl

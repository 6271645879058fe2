import Kvl.Lib.CText
import Kvl.Store.Index

/-!
# The trunk store

`trunk_store.c`: the index, the cache budget, loads and frees. A buffer is the
number of its allocation in a heap that logs what was released. The tensor
shapes and payload sizes of a record are left out, as no function here reads
them.
-/

namespace Kvl

set_option autoImplicit false

open CText

/-- `KVL_TRUNK_MAGIC`, the eight characters `KVLTRNK1`. -/
def trunkMagic : Bytes := [75, 86, 76, 84, 82, 78, 75, 49]
def trunkVersion : UInt32 := 1
def trunkAlign : UInt64 := 4096
def trunkGlobalLayer : UInt32 := 0xffffffff

structure TrunkRecord where
  layer : UInt32
  kind : UInt32
  fileOffset : UInt64
  readBytes : UInt64
  deriving DecidableEq, Repr, Inhabited

structure TrunkStore where
  fd : Int
  directIo : Bool
  records : List TrunkRecord
  /-- `NULL`, or one buffer for each record, `none` if it is not cached. -/
  cacheBase : Option (Nat → Option Nat)
  cacheBudgetBytes : UInt64
  cacheBytes : UInt64
  cacheConfigured : Bool
  loadCalls : Nat
  cacheHits : Nat
  cacheInserts : Nat
  bytesRead : Nat

/-- `data` is `base` in every tensor that is returned. -/
structure TrunkTensor where
  record : Option Nat
  base : Option Nat
  owned : Bool
  deriving DecidableEq, Repr

def emptyTensor : TrunkTensor := ⟨none, none, false⟩

structure BufferHeap where
  next : Nat
  data : Nat → Bytes
  freed : List Nat

def emptyHeap : BufferHeap := ⟨0, fun _ => [], []⟩

def BufferHeap.alloc (h : BufferHeap) (bytes : Bytes) : BufferHeap :=
  { h with next := h.next + 1, data := Function.update h.data h.next bytes }

/-- `free`, where `NULL` is nothing to release. -/
def BufferHeap.free (h : BufferHeap) (b : Option Nat) : BufferHeap :=
  match b with
  | none => h
  | some b => { h with freed := h.freed ++ [b] }

/-! ### Opening and closing -/

def trunkHeaderBytes : Nat := 40
def trunkRecordBytes : Nat := 56

def decodeTrunkRecord (b : Bytes) : TrunkRecord where
  layer := u32At b 0
  kind := u32At b 4
  fileOffset := u64At b 32
  readBytes := u64At b 40

def readTrunkIndex (file : Bytes) (allocOk : Bool) : Option (List TrunkRecord) :=
  if file.length < trunkHeaderBytes then none
  else if file.take 8 ≠ trunkMagic ∨ u32At file 8 ≠ trunkVersion ∨ u32At file 12 ≠ 4096 then none
  else if u32At file 16 = 0 ∨ (u64At file 24).toNat ≥ 2 ^ 63 then none
  else if allocOk = false then none
  else
    (freadMany decodeTrunkRecord trunkRecordBytes (u32At file 16).toNat
      (file.drop (u64At file 24).toNat)).map Prod.fst

/-- `strtoull` in base 10: the value, whether it was out of range, and the rest. -/
def strtoull (s : Bytes) : Nat × Bool × Bytes :=
  let signed := splitSign (s.dropWhile isSpace)
  let digits := signed.2.takeWhile isDigit
  if digits = [] then (0, false, s)
  else if 2 ^ 64 ≤ digitsVal digits then (2 ^ 64 - 1, true, signed.2.dropWhile isDigit)
  else ((if signed.1 then 2 ^ 64 - digitsVal digits else digitsVal digits) % 2 ^ 64, false,
    signed.2.dropWhile isDigit)

/-- The budget that `KVL_TRUNK_CACHE_MIB` sets, and whether it is set. -/
def readCacheBudget (raw : Option Bytes) : Option (UInt64 × Bool) :=
  match raw with
  | some (c :: text) =>
    let read := strtoull (c :: text)
    if read.2.1 = true ∨ read.2.2 ≠ [] ∨ read.1 > (2 ^ 64 - 1) / 1048576 then none
    else some (.ofNat (read.1 * 1048576), true)
  | _ => some (0, false)

structure TrunkOpenEnv where
  index : Option Bytes
  recordsAllocOk : Bool
  cacheMib : Option Bytes
  cacheAllocOk : Bool
  /-- The descriptor `open_data` returns with and without direct I/O. -/
  openData : Bool → Int

/-- The data file, with direct I/O first if that is preferred. -/
def openTrunkData (openData : Bool → Int) (preferDirectIo : Bool) : Int × Bool :=
  if 0 ≤ openData preferDirectIo then (openData preferDirectIo, preferDirectIo)
  else if preferDirectIo then (openData false, false)
  else (openData preferDirectIo, false)

def kvlTrunkStoreOpen (env : TrunkOpenEnv) (preferDirectIo : Bool) : Option TrunkStore :=
  match env.index.bind fun file => readTrunkIndex file env.recordsAllocOk with
  | none => none
  | some records =>
    match readCacheBudget env.cacheMib with
    | none => none
    | some (budget, configured) =>
      if budget ≠ 0 ∧ env.cacheAllocOk = false then none
      else
        let data := openTrunkData env.openData preferDirectIo
        if data.1 < 0 then none
        else some
          { fd := data.1
            directIo := data.2
            records := records
            cacheBase := if budget = 0 then none else some fun _ => none
            cacheBudgetBytes := budget
            cacheBytes := 0
            cacheConfigured := configured
            loadCalls := 0
            cacheHits := 0
            cacheInserts := 0
            bytesRead := 0 }

def closedStore : TrunkStore where
  fd := -1
  directIo := false
  records := []
  cacheBase := none
  cacheBudgetBytes := 0
  cacheBytes := 0
  cacheConfigured := false
  loadCalls := 0
  cacheHits := 0
  cacheInserts := 0
  bytesRead := 0

/-- `cache_base[idx]`, with `NULL` for no table. -/
def TrunkStore.cached (s : TrunkStore) (idx : Nat) : Option Nat := s.cacheBase.bind fun t => t idx

def kvlTrunkStoreClose (s : TrunkStore) (h : BufferHeap) : TrunkStore × BufferHeap :=
  (closedStore, (List.range s.records.length).foldl (fun h i => h.free (s.cached i)) h)

/-! ### Loading and freeing -/

/-- `kvl_trunk_find`. -/
def kvlTrunkFind (s : TrunkStore) (layer kind : UInt32) : Option Nat :=
  s.records.findIdx? fun r => r.layer == layer && r.kind == kind

def TrunkStore.record (s : TrunkStore) (idx : Nat) : TrunkRecord := s.records.getD idx default

/-- The bytes of a record in the data file. -/
def TrunkRecord.bytes (r : TrunkRecord) (file : Bytes) : Bytes :=
  (file.drop r.fileOffset.toNat).take r.readBytes.toNat

/-- How the allocation and the read of one load end. -/
structure TrunkLoadEnv where
  allocOk : Bool
  readOk : Bool

/-- A read without an error delivers what the file has. -/
def TrunkLoadEnv.complete (env : TrunkLoadEnv) (file : Bytes) (r : TrunkRecord) : Bool :=
  env.readOk && decide (r.fileOffset.toNat + r.readBytes.toNat ≤ file.length)

structure TrunkLoad where
  rc : Int
  store : TrunkStore
  heap : BufferHeap
  out : TrunkTensor

def cacheEligible (s : TrunkStore) (r : TrunkRecord) : Bool :=
  r.layer != trunkGlobalLayer && s.cacheBase.isSome &&
    decide (r.readBytes ≤ s.cacheBudgetBytes - s.cacheBytes)

/-- The part after the lookup in the cache. -/
def loadUncached (file : Bytes) (env : TrunkLoadEnv) (s : TrunkStore) (h : BufferHeap)
    (idx : Nat) : TrunkLoad :=
  let r := s.record idx
  if env.allocOk = false then ⟨-1, s, h, emptyTensor⟩
  else
    let buf := h.next
    let filled := h.alloc (r.bytes file)
    if env.complete file r = false then ⟨-1, s, filled.free (some buf), emptyTensor⟩
    else
      let s := { s with bytesRead := s.bytesRead + r.readBytes.toNat }
      if cacheEligible s r then
        let s := { s with
          cacheBase := s.cacheBase.map fun t => Function.update t idx (some buf)
          cacheBytes := s.cacheBytes + r.readBytes
          cacheInserts := s.cacheInserts + 1 }
        ⟨0, s, filled, ⟨some idx, some buf, false⟩⟩
      else ⟨0, s, filled, ⟨some idx, some buf, true⟩⟩

def kvlTrunkLoad (file : Bytes) (env : TrunkLoadEnv) (s : TrunkStore) (h : BufferHeap)
    (out : TrunkTensor) (layer kind : UInt32) : TrunkLoad :=
  if s.fd < 0 then ⟨-1, s, h, out⟩
  else
    match kvlTrunkFind s layer kind with
    | none => ⟨-1, s, h, emptyTensor⟩
    | some idx =>
      let r := s.record idx
      if r.readBytes = 0 ∨ r.fileOffset % trunkAlign ≠ 0 ∨ r.readBytes % trunkAlign ≠ 0 then
        ⟨-1, s, h, emptyTensor⟩
      else
        let s := { s with loadCalls := s.loadCalls + 1 }
        match s.cached idx with
        | some b => ⟨0, { s with cacheHits := s.cacheHits + 1 }, h, ⟨some idx, some b, false⟩⟩
        | none => loadUncached file env s h idx

def kvlTrunkTensorFree (h : BufferHeap) (t : TrunkTensor) : BufferHeap × TrunkTensor :=
  (if t.owned then h.free t.base else h, emptyTensor)

/-! ### Runs -/

/-- A call with the number of the caller's tensor. -/
inductive TrunkCall where
  | load (tensor : Nat) (layer kind : UInt32) (env : TrunkLoadEnv)
  | free (tensor : Nat)

structure TrunkWorld where
  store : TrunkStore
  heap : BufferHeap
  tensors : Nat → TrunkTensor

def openWorld (s : TrunkStore) : TrunkWorld := ⟨s, emptyHeap, fun _ => emptyTensor⟩

/-- The return code of a call and the world after it; a free returns nothing. -/
def trunkStep (file : Bytes) (w : TrunkWorld) : TrunkCall → Int × TrunkWorld
  | .load v layer kind env =>
    let load := kvlTrunkLoad file env w.store w.heap (w.tensors v) layer kind
    (load.rc, ⟨load.store, load.heap, Function.update w.tensors v load.out⟩)
  | .free v =>
    let freed := kvlTrunkTensorFree w.heap (w.tensors v)
    (0, ⟨w.store, freed.1, Function.update w.tensors v freed.2⟩)

def trunkRun (file : Bytes) (w : TrunkWorld) (calls : List TrunkCall) : TrunkWorld :=
  calls.foldl (fun w call => (trunkStep file w call).2) w

end Kvl

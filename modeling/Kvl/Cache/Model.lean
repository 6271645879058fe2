import Kvl.Store.Format

/-!
# The expert cache

`expert_cache.c` as functions on an explicit cache state. A slot of the arena
is one block of memory of type `B`. What a positioned read does to that block
is a parameter: `load r old` is the block after a complete read of record `r`
over the bytes `old`, and a read that fails leaves whatever the caller of the
model supplies. Every call also returns the list of reads it attempted.

The clock ticks at most once per hit or reservation and once more per publish.
It is a natural number here, so `UINT64_MAX`, which the victim search uses for
"nothing seen yet", is `none`.
-/

namespace Kvl

set_option autoImplicit false

/-- `key_of[slot]`: the two negative sentinels, or a flattened key. -/
inductive SlotKey where
  | empty
  | inflight
  | key (k : Nat)
  deriving DecidableEq, Repr

structure ExpertCache (B : Type*) where
  arena : Nat → B
  budgetBytes : Nat
  arenaBytes : Nat
  slotBytes : Nat
  nSlots : Nat
  slotOf : Nat → Option Nat
  keyOf : Nat → SlotKey
  usedAt : Nat → Nat
  recordOfSlot : Nat → Option Nat
  /-- `NULL` until the first pin call. -/
  pinnedOf : Option (Nat → Bool)
  clock : Nat
  requests : Nat
  hits : Nat
  misses : Nat
  evictions : Nat
  bytesRead : Nat
  readOps : Nat
  prefetchBatches : Nat
  prefetchReads : Nat
  readFailures : Nat

/-- How one `kvl_expert_load` ends. -/
inductive ReadResult (B : Type*) where
  | delivered
  | failed (junk : B)

/-- One call of `kvl_expert_load`: its slot, its record, whether it was complete. -/
structure Read where
  slot : Nat
  record : Nat
  ok : Bool
  deriving DecidableEq, Repr

/-- A published view: `base` is the slot, the three offsets are relative to it. -/
structure CachedExpert where
  record : Nat
  base : Nat
  gate : UInt64
  up : UInt64
  down : UInt64
  deriving DecidableEq, Repr

structure CallResult (B : Type*) where
  rc : Int
  out : Option CachedExpert
  reads : List Read
  cache : ExpertCache B

/-- `(x + a - 1) / a * a` in `size_t`. -/
def alignUpSize (x a : Nat) : Nat := (x + a - 1) % 2 ^ 64 / a * a

/-- The largest `read_bytes` over the index. -/
def maxReadBytes (s : ExpertStore) : Nat :=
  (List.range s.hdr.nRecords.toNat).foldl (fun maxRead i =>
    if (s.record i).readBytes.toNat > maxRead then (s.record i).readBytes.toNat else maxRead) 0

/-- `trap` is the integer division by a zero `slot_bytes`. -/
inductive InitResult (B : Type*) where
  | ok (c : ExpertCache B)
  | error
  | trap

section Init
variable {B : Type*}

def emptyCache (arena : Nat → B) (budget slotBytes nSlots : Nat) : ExpertCache B where
  arena := arena
  budgetBytes := budget
  arenaBytes := nSlots * slotBytes % 2 ^ 64
  slotBytes := slotBytes
  nSlots := nSlots
  slotOf := fun _ => none
  keyOf := fun _ => .empty
  usedAt := fun _ => 0
  recordOfSlot := fun _ => none
  pinnedOf := none
  clock := 0
  requests := 0
  hits := 0
  misses := 0
  evictions := 0
  bytesRead := 0
  readOps := 0
  prefetchBatches := 0
  prefetchReads := 0
  readFailures := 0

/-- `arena` is the fresh allocation, `allocOk` whether all five allocations succeed. -/
def kvlExpertCacheInit (s : ExpertStore) (arena : Nat → B) (budget : UInt64)
    (allocOk : Bool) : InitResult B :=
  if s.fd < 0 ∨ budget = 0 then .error
  else if maxReadBytes s = 0 then .error
  else
    let slotBytes := alignUpSize (maxReadBytes s) expertAlign
    if slotBytes = 0 then .trap
    else
      let nSlots := cInt (budget.toNat / slotBytes)
      if nSlots < 1 then .error
      -- the arena size is computed in size_t before it is compared with the budget
      else if nSlots.toNat * slotBytes % 2 ^ 64 > budget.toNat then .error
      else if allocOk then .ok (emptyCache arena budget.toNat slotBytes nSlots.toNat)
      else .error

end Init

def keyFor (s : ExpertStore) (layer expert : Int) : Option Nat :=
  if idsInRange s layer expert then
    if flatKey s layer expert > 2 ^ 31 - 1 then none else some (flatKey s layer expert)
  else none

def keyInList (key : Nat) (keys : List Nat) : Bool := keys.any (· == key)

namespace ExpertCache
variable {B : Type*}

def isPinned (c : ExpertCache B) (key : Nat) : Bool :=
  match c.pinnedOf with
  | none => false
  | some pinned => pinned key

/-- `used_at[i] < oldest`. -/
def older (used : Nat) : Option Nat → Bool
  | none => true
  | some oldest => used < oldest

/-- The victim loop over the remaining slots, with its two running values. -/
def pickVictimFrom (c : ExpertCache B) (avoid : List Nat) :
    List Nat → Option Nat → Option Nat → Option Nat
  | [], best, _ => best
  | i :: rest, best, oldest =>
    match c.keyOf i with
    | .inflight => c.pickVictimFrom avoid rest best oldest
    | .empty => some i
    | .key k =>
      if c.isPinned k then c.pickVictimFrom avoid rest best oldest
      else if keyInList k avoid then c.pickVictimFrom avoid rest best oldest
      else if older (c.usedAt i) oldest then
        c.pickVictimFrom avoid rest (some i) (some (c.usedAt i))
      else c.pickVictimFrom avoid rest best oldest

def pickVictim (c : ExpertCache B) (avoid : List Nat) : Option Nat :=
  c.pickVictimFrom avoid (List.range c.nSlots) none none

/-- Drop the key a slot holds from the key table. -/
def evict (c : ExpertCache B) (slot : Nat) : ExpertCache B :=
  match c.keyOf slot with
  | .key k => { c with slotOf := Function.update c.slotOf k none, evictions := c.evictions + 1 }
  | _ => c

/-- The lines both load paths share: evict, mark in flight, stamp. -/
def reserveSlot (c : ExpertCache B) (slot : Nat) : ExpertCache B :=
  let c := c.evict slot
  { c with
    keyOf := Function.update c.keyOf slot .inflight
    recordOfSlot := Function.update c.recordOfSlot slot none
    clock := c.clock + 1
    usedAt := Function.update c.usedAt slot (c.clock + 1) }

end ExpertCache

open ExpertCache

section Calls
variable {B : Type*} (s : ExpertStore) (load : Nat → B → B)

def publishOut (slot r : Nat) : CachedExpert where
  record := r
  base := slot
  gate := (s.record r).gateOff
  up := (s.record r).upOff
  down := (s.record r).downOff

/-- The memory of a slot after one `kvl_expert_load` of record `r`. -/
def fill (r : Nat) (old : B) : ReadResult B → B
  | .delivered => load r old
  | .failed junk => junk

def ReadResult.ok : ReadResult B → Bool
  | .delivered => true
  | .failed _ => false

/-- One `kvl_expert_load` into the memory of a slot. -/
def fillSlot (c : ExpertCache B) (slot r : Nat) (read : ReadResult B) : ExpertCache B :=
  { c with arena := Function.update c.arena slot (fill load r (c.arena slot) read) }

/-- The return code of the source is `read.ok`. -/
def loadIntoSlot (c : ExpertCache B) (slot r : Nat) (read : ReadResult B) : ExpertCache B :=
  let c := fillSlot load c slot r read
  let c := { c with readOps := c.readOps + kvlExpertLoadReadOps s }
  if read.ok then { c with bytesRead := c.bytesRead + (s.record r).readBytes.toNat }
  else { c with readFailures := c.readFailures + 1 }

/-- The slot of a resident key: in range and holding that key. -/
def residentSlot (c : ExpertCache B) (key : Nat) : Option Nat :=
  match c.slotOf key with
  | none => none
  | some slot => if slot < c.nSlots ∧ c.keyOf slot = .key key then some slot else none

def countRequest (c : ExpertCache B) : ExpertCache B := { c with requests := c.requests + 1 }

def countMiss (c : ExpertCache B) : ExpertCache B := { c with misses := c.misses + 1 }

def countBatch (c : ExpertCache B) : ExpertCache B :=
  { c with prefetchBatches := c.prefetchBatches + 1 }

/-- The hit path: count and stamp. -/
def touch (c : ExpertCache B) (slot : Nat) : ExpertCache B :=
  { c with
    hits := c.hits + 1
    clock := c.clock + 1
    usedAt := Function.update c.usedAt slot (c.clock + 1) }

/-- The end of a single load: publish the record, or empty the slot. -/
def settleGet (c : ExpertCache B) (slot key r : Nat) (ok : Bool) : CallResult B :=
  if ok then
    ⟨0, some (publishOut s slot r), [⟨slot, r, true⟩],
      { c with
        recordOfSlot := Function.update c.recordOfSlot slot (some r)
        keyOf := Function.update c.keyOf slot (.key key)
        slotOf := Function.update c.slotOf key (some slot) }⟩
  else ⟨-1, none, [⟨slot, r, false⟩], { c with keyOf := Function.update c.keyOf slot .empty }⟩

def kvlExpertCacheGet (c : ExpertCache B) (layer expert : Int) (read : ReadResult B) :
    CallResult B :=
  match keyFor s layer expert with
  | none => ⟨-1, none, [], c⟩
  | some key =>
    let c := countRequest c
    match residentSlot c key with
    | some slot => ⟨0, (c.recordOfSlot slot).map (publishOut s slot), [], touch c slot⟩
    | none =>
      let c := countMiss c
      match kvlExpertFind s layer expert with
      | none => ⟨-1, none, [], c⟩
      | some r =>
        if (s.record r).readBytes.toNat > c.slotBytes then ⟨-1, none, [], c⟩
        else
          match c.pickVictim [] with
          | none => ⟨-1, none, [], c⟩
          | some slot =>
            settleGet s (loadIntoSlot s load (c.reserveSlot slot) slot r read) slot key r read.ok

structure PrefetchWork where
  slot : Nat
  key : Nat
  r : Nat
  /-- `got == read_bytes`. -/
  got : Bool
  deriving DecidableEq, Repr

/-- `qsort` by a key: some permutation in key order. The order of equal keys is
not specified, so it is not fixed here either. -/
structure Qsort {α : Type*} (key : α → Nat) where
  sort : List α → List α
  perm : ∀ l, (sort l).Perm l
  sorted : ∀ l, (sort l).Pairwise fun a b => key a ≤ key b

/-- What `cmp_work` compares. -/
def workOffset (w : PrefetchWork) : Nat := (s.record w.r).fileOffset.toNat

/-- What one batched call meets outside the cache. -/
structure BatchEnv (B : Type*) where
  workOk : Bool
  avoidOk : Bool
  qsort : Qsort (workOffset s)
  /-- The result of the `i`-th read in sorted order. -/
  read : Nat → ReadResult B

/-- The distinct keys of the batch, in order of first appearance. -/
def avoidKeys (layer : Int) : List Int → List Nat → List Nat
  | [], avoid => avoid
  | e :: es, avoid =>
    match keyFor s layer e with
    | none => avoidKeys layer es avoid
    | some key => avoidKeys layer es (if keyInList key avoid then avoid else avoid ++ [key])

/-- The avoid list exists only once persistent pins are enabled. -/
def batchAvoid (c : ExpertCache B) (layer : Int) (ids : List Int) : List Nat :=
  if c.pinnedOf.isSome then avoidKeys s layer ids [] else []

/-- The body of phase 1 for one id; `none` is the `break` when no victim is left. -/
def reserveStep (layer : Int) (avoid : List Nat) (e : Int) (c : ExpertCache B)
    (w : List PrefetchWork) : Option (ExpertCache B × List PrefetchWork) :=
  match keyFor s layer e with
  | none => some (c, w)
  | some key =>
    if (c.slotOf key).isSome then some (c, w)
    else if w.any (·.key == key) then some (c, w)
    else
      match kvlExpertFind s layer e with
      | none => some (c, w)
      | some r =>
        if (s.record r).readBytes.toNat > c.slotBytes then some (c, w)
        else
          match c.pickVictim avoid with
          | none => none
          | some slot => some (c.reserveSlot slot, w ++ [⟨slot, key, r, false⟩])

/-- Phase 1: reserve distinct slots serially. -/
def reserveBatch (layer : Int) (avoid : List Nat) :
    List Int → ExpertCache B → List PrefetchWork → ExpertCache B × List PrefetchWork
  | [], c, w => (c, w)
  | e :: es, c, w =>
    match reserveStep s layer avoid e c w with
    | none => (c, w)
    | some (c, w) => reserveBatch layer avoid es c w

/-- Phase 2: the reads go to distinct slots, so their order does not matter. -/
def loadBatch (read : Nat → ReadResult B) :
    Nat → List PrefetchWork → ExpertCache B → ExpertCache B × List PrefetchWork
  | _, [], c => (c, [])
  | i, w :: ws, c =>
    let rest := loadBatch read (i + 1) ws (fillSlot load c w.slot w.r (read i))
    (rest.1, { w with got := (read i).ok } :: rest.2)

/-- Phase 3 for one reservation: publish a complete record, release the rest. -/
def publishWork (c : ExpertCache B) (w : PrefetchWork) : ExpertCache B :=
  let c := { c with readOps := c.readOps + kvlExpertLoadReadOps s }
  if w.got then
    { c with
      recordOfSlot := Function.update c.recordOfSlot w.slot (some w.r)
      keyOf := Function.update c.keyOf w.slot (.key w.key)
      slotOf := Function.update c.slotOf w.key (some w.slot)
      clock := c.clock + 1
      usedAt := Function.update c.usedAt w.slot (c.clock + 1)
      bytesRead := c.bytesRead + (s.record w.r).readBytes.toNat
      prefetchReads := c.prefetchReads + 1 }
  else
    { c with
      readFailures := c.readFailures + 1
      keyOf := Function.update c.keyOf w.slot .empty
      recordOfSlot := Function.update c.recordOfSlot w.slot none }

def PrefetchWork.toRead (w : PrefetchWork) : Read := ⟨w.slot, w.r, w.got⟩

/-- `experts` is `none` for `NULL`, and otherwise holds at least `n` ids. -/
def kvlExpertCacheGetmany (c : ExpertCache B) (layer : Int) (experts : Option (List Int))
    (n : Int) (env : BatchEnv s B) : CallResult B :=
  match experts with
  | none => ⟨-1, none, [], c⟩
  | some ids =>
    if n < 0 then ⟨-1, none, [], c⟩
    else if n = 0 then ⟨0, none, [], c⟩
    else
      let ids := ids.take n.toNat
      let c := countBatch c
      if !env.workOk then ⟨-1, none, [], c⟩
      else if c.pinnedOf.isSome && !env.avoidOk then ⟨-1, none, [], c⟩
      else
        let (c, w) := reserveBatch s layer (batchAvoid s c layer ids) ids c []
        if w.isEmpty then ⟨0, none, [], c⟩
        else
          let (c, w) := loadBatch load env.read 0 (env.qsort.sort w) c
          ⟨(w.countP (·.got) : Nat), none, w.map (·.toRead), w.foldl (publishWork s) c⟩

/-- The second loop of `pin_layer`; a key that fails ends it. -/
def setPins (layer : Int) : List Int → (Nat → Bool) → Bool × (Nat → Bool)
  | [], pinned => (true, pinned)
  | e :: es, pinned =>
    match keyFor s layer e with
    | none => (false, pinned)
    | some key => setPins layer es (Function.update pinned key true)

/-- `memset` over one layer's row of the pin table. -/
def clearLayer (layer : Int) (pinned : Nat → Bool) (k : Nat) : Bool :=
  if layer.toNat * s.nExperts ≤ k ∧ k < layer.toNat * s.nExperts + s.nExperts then false
  else pinned k

def kvlExpertCachePinLayer (c : ExpertCache B) (layer : Int) (experts : Option (List Int))
    (n : Int) (allocOk : Bool) : CallResult B :=
  if layer < 0 ∨ layer ≥ cInt s.nLayers ∨ n < 0 ∨ n > cInt s.nExperts ∨
      (n > 0 ∧ experts = none) then ⟨-1, none, [], c⟩
  else
    let ids := (experts.getD []).take n.toNat
    if ids.any fun e => (keyFor s layer e).isNone then ⟨-1, none, [], c⟩
    else if c.pinnedOf.isNone && !allocOk then ⟨-1, none, [], c⟩
    else
      let (ok, pinned) := setPins s layer ids (clearLayer s layer (c.pinnedOf.getD fun _ => false))
      ⟨if ok then 0 else -1, none, [], { c with pinnedOf := some pinned }⟩

def kvlExpertCacheResident (c : ExpertCache B) (layer expert : Int) : CallResult B :=
  match keyFor s layer expert with
  | none => ⟨0, none, [], c⟩
  | some key =>
    match residentSlot c key with
    | none => ⟨0, none, [], c⟩
    | some slot => ⟨1, (c.recordOfSlot slot).map (publishOut s slot), [], c⟩

def kvlExpertCacheResetStats (c : ExpertCache B) : ExpertCache B :=
  { c with
    requests := 0
    hits := 0
    misses := 0
    evictions := 0
    bytesRead := 0
    readOps := 0
    prefetchBatches := 0
    prefetchReads := 0
    readFailures := 0 }

/-- One call of the cache interface with everything it meets outside the cache. -/
inductive CacheOp (B : Type*) where
  | get (layer expert : Int) (read : ReadResult B)
  | getmany (layer : Int) (experts : Option (List Int)) (n : Int) (env : BatchEnv s B)
  | pinLayer (layer : Int) (experts : Option (List Int)) (n : Int) (allocOk : Bool)
  | resident (layer expert : Int)
  | resetStats

def step (c : ExpertCache B) : CacheOp s B → CallResult B
  | .get layer expert read => kvlExpertCacheGet s load c layer expert read
  | .getmany layer experts n env => kvlExpertCacheGetmany s load c layer experts n env
  | .pinLayer layer experts n allocOk => kvlExpertCachePinLayer s c layer experts n allocOk
  | .resident layer expert => kvlExpertCacheResident s c layer expert
  | .resetStats => ⟨0, none, [], kvlExpertCacheResetStats c⟩

/-- A history of calls. -/
def run (c : ExpertCache B) (ops : List (CacheOp s B)) : ExpertCache B :=
  ops.foldl (fun c op => (step s load c op).cache) c

/-- All reads a history attempted. -/
def runReads (c : ExpertCache B) : List (CacheOp s B) → List Read
  | [] => []
  | op :: ops => (step s load c op).reads ++ runReads (step s load c op).cache ops

end Calls

end Kvl

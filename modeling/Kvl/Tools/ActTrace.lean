import Kvl.Lib.PyText
import Kvl.Store.Encode

/-!
# The activation trace

`act_trace_record` appends one record per routed token and layer, and opens the
file at the first one; `iter_trace` reads the records back. A float is its bit
pattern.
-/

namespace Kvl.ActTrace

set_option autoImplicit false

open PyText (Exc Str text strNat)

/-! ### The writer -/

/-- What the writer finds outside: whether `KVL_MOE_ACT_TRACE` names a file and `fopen` opens
it, what is in the file after an `fwrite` and whether that succeeded, and `fflush`. -/
structure TraceEnv where
  path : Bool
  fopen : Bool
  fwrite : Bytes → Bytes → Bytes × Bool
  fflush : Bytes → Bool

/-- The statics of the writer. -/
structure Writer where
  state : Bool
  file : Option Bytes
  event : UInt64
  hidden : Int
  topK : Int
  deriving DecidableEq, Repr

def Writer.start : Writer := ⟨false, none, 0, 0, 0⟩

/-- One `fwrite` after the other, up to the first that fails. -/
def fwriteAll (fwrite : Bytes → Bytes → Bytes × Bool) (f : Bytes) : List Bytes → Bytes × Bool
  | [] => (f, true)
  | b :: bs =>
    let r := fwrite f b
    if r.2 then fwriteAll fwrite r.1 bs else (r.1, false)

def actMagic : Bytes := [75, 86, 76, 65, 67, 84, 48, 49]

/-- `(uint32_t)v` of an `int`. -/
def intWord (v : Int) : Bytes := toLE 4 (v % 2 ^ 32).toNat

def i32Word (v : Int32) : Bytes := toLE 4 v.toBitVec.toNat

def headerParts (hidden topK : Int) : List Bytes :=
  [actMagic, toLE 4 1, intWord hidden, intWord topK, toLE 4 0x01020304]

def actTraceOpen (env : TraceEnv) (hidden topK : Int) (s : Writer) : Int × Writer :=
  if s.state then
    match s.file with
    | none => (0, s)
    | some _ => (if hidden = s.hidden ∧ topK = s.topK then 1 else -1, s)
  else
    let s := { s with state := true }
    if !env.path then (0, s)
    else if hidden ≤ 0 ∨ topK ≤ 0 ∨ 64 < topK then (-1, s)
    else if !env.fopen then (-1, s)
    else
      let r := fwriteAll env.fwrite [] (headerParts hidden topK)
      if r.2 then (1, { s with file := some r.1, hidden := hidden, topK := topK }) else (-1, s)

/-- What one call of the model passes: the layer, the routes and the input vector. -/
structure MoeEvent where
  layer : Int32
  ids : List Int32
  weights : List UInt32
  x : List UInt32
  deriving DecidableEq, Repr

def recordParts (event : UInt64) (hidden topK : Int) (e : MoeEvent) : List Bytes :=
  [toLE 8 event.toNat, i32Word e.layer] ++ (e.ids.take topK.toNat).map i32Word ++
    [(e.weights.take topK.toNat).flatMap fun w => toLE 4 w.toNat,
      (e.x.take hidden.toNat).flatMap fun w => toLE 4 w.toNat]

def actTraceRecord (env : TraceEnv) (hidden topK : Int) (e : MoeEvent) (s : Writer) :
    Int × Writer :=
  let opened := actTraceOpen env hidden topK s
  if opened.1 ≤ 0 then opened
  else
    match opened.2.file with
    | none => (-1, opened.2)
    | some f =>
      let event := opened.2.event + 1
      let r := fwriteAll env.fwrite f (recordParts event hidden topK e)
      let s := { opened.2 with file := some r.1, event := event }
      if !r.2 then (-1, s)
      else if event &&& 255 = 0 ∧ ¬ env.fflush r.1 then (-1, s)
      else (1, s)

/-- The results and the state after a sequence of events. -/
def traceEvents (env : TraceEnv) (hidden topK : Int) : List MoeEvent → Writer → List Int × Writer
  | [], s => ([], s)
  | e :: events, s =>
    let r := actTraceRecord env hidden topK e s
    let rest := traceEvents env hidden topK events r.2
    (r.1 :: rest.1, rest.2)

/-! ### The reader -/

structure TraceHeader where
  hidden : Nat
  topK : Nat
  deriving DecidableEq, Repr

structure TraceRecord (F : Type*) where
  event : Nat
  layer : Int
  ids : List Int
  weights : List F
  x : List F
  deriving DecidableEq, Repr

/-- `n` words of four bytes. -/
def words : Nat → Bytes → List Nat
  | 0, _ => []
  | n + 1, b => ofLE (b.take 4) :: words n (b.drop 4)

/-- `struct.unpack` of a float, its conversion to `np.float32`, and `repr` of bytes. -/
structure Unpacking (D : Type*) where
  widen : UInt32 → D
  narrow : D → UInt32
  reprBytes : Bytes → Str

/-- `f"0x{n:08x}"`. -/
def hexWord (n : Nat) : Str :=
  let ds := (Nat.toDigits 16 n).map Char.toNat
  text "0x" ++ List.replicate (8 - ds.length) 48 ++ ds

section Reader
variable {D : Type*} (up : Unpacking D) (path : Str)

def failAt (message : Str) : Exc := ⟨.value, path ++ text ": " ++ message⟩

def readHeader (b : Bytes) : Except Exc TraceHeader :=
  if b.length < 24 then .error (failAt path (text "short KVLACT01 header"))
  else
    let magic := b.take 8
    let version := ofLE ((b.drop 8).take 4)
    let hidden := ofLE ((b.drop 12).take 4)
    let topK := ofLE ((b.drop 16).take 4)
    let endian := ofLE ((b.drop 20).take 4)
    if magic ≠ actMagic then
      .error (failAt path (text "bad activation-trace magic " ++ up.reprBytes magic))
    else if version ≠ 1 then
      .error (failAt path (text "unsupported activation-trace version " ++ strNat version))
    else if endian ≠ 0x01020304 then
      .error (failAt path (text "unsupported endian marker " ++ hexWord endian))
    else if hidden = 0 ∨ 65536 < hidden ∨ topK = 0 ∨ 64 < topK then
      .error (failAt path (text "invalid hidden/top_k " ++ strNat hidden ++ text "/" ++ strNat topK))
    else .ok ⟨hidden, topK⟩

/-- The loop of the generator: the records it yields, and what it raises in the end. -/
def iterRecords (h : TraceHeader) (rest : Bytes) : List (TraceRecord UInt32) × Option Exc :=
  if rest = [] then ([], none)
  else if hshort : (rest.take 12).length ≠ 12 then
    ([], some (failAt path (text "truncated activation record prefix")))
  else
    let iraw := (rest.drop 12).take (4 * h.topK)
    let wraw := ((rest.drop 12).drop (4 * h.topK)).take (4 * h.topK)
    let xraw := (((rest.drop 12).drop (4 * h.topK)).drop (4 * h.topK)).take (4 * h.hidden)
    if iraw.length ≠ 4 * h.topK ∨ wraw.length ≠ 4 * h.topK ∨ xraw.length ≠ 4 * h.hidden then
      ([], some (failAt path (text "truncated activation record payload")))
    else
      let record : TraceRecord UInt32 :=
        { event := ofLE (rest.take 8), layer := cInt (ofLE ((rest.drop 8).take 4))
          ids := (words h.topK iraw).map cInt
          weights := (words h.topK wraw).map fun w => up.narrow (up.widen (UInt32.ofNat w))
          x := (words h.hidden xraw).map UInt32.ofNat }
      let more := iterRecords h
        ((((rest.drop 12).drop (4 * h.topK)).drop (4 * h.topK)).drop (4 * h.hidden))
      (record :: more.1, more.2)
termination_by rest.length
decreasing_by
  simp only [List.length_take, ne_eq, not_not] at hshort
  simp only [List.length_drop]
  omega

/-- `iter_trace`, with all that its generator does. -/
def iterTrace (b : Bytes) : Except Exc (TraceHeader × List (TraceRecord UInt32) × Option Exc) :=
  match readHeader up path b with
  | .error e => .error e
  | .ok h => .ok (h, iterRecords up path h (b.drop 24))

end Reader

/-! ### What the writer leaves in the file -/

/-- Every write and flush succeeds. -/
structure Writes (env : TraceEnv) : Prop where
  path : env.path = true
  fopen : env.fopen = true
  fwrite : ∀ f b, env.fwrite f b = (f ++ b, true)
  fflush : ∀ f, env.fflush f = true

def encodeTraceHeader (hidden topK : Nat) : Bytes := (headerParts hidden topK).flatten

def encodeEvent (event : UInt64) (e : MoeEvent) : Bytes :=
  toLE 8 event.toNat ++ i32Word e.layer ++ e.ids.flatMap i32Word ++
    (e.weights.flatMap fun w => toLE 4 w.toNat) ++ e.x.flatMap fun w => toLE 4 w.toNat

/-- The records after the event `n`. -/
def encodeEvents (n : UInt64) : List MoeEvent → Bytes
  | [] => []
  | e :: events => encodeEvent (n + 1) e ++ encodeEvents (n + 1) events

/-- The routes and the input vector have the sizes of the header. -/
structure Shaped (hidden topK : Nat) (e : MoeEvent) : Prop where
  ids : e.ids.length = topK
  weights : e.weights.length = topK
  x : e.x.length = hidden

section Writing
variable {env : TraceEnv} {hidden topK : Nat}

theorem fwriteAll_ok (henv : Writes env) (f : Bytes) (parts : List Bytes) :
    fwriteAll env.fwrite f parts = (f ++ parts.flatten, true) := by
  induction parts generalizing f with
  | nil => simp [fwriteAll]
  | cons b parts ih =>
    unfold fwriteAll
    rw [henv.fwrite]
    dsimp only
    rw [if_pos rfl, ih, List.flatten_cons, List.append_assoc]

theorem recordParts_flatten {e : MoeEvent} (he : Shaped hidden topK e) (event : UInt64) :
    (recordParts event hidden topK e).flatten = encodeEvent event e := by
  unfold recordParts encodeEvent
  rw [Int.toNat_natCast, Int.toNat_natCast, List.take_of_length_le he.ids.le,
    List.take_of_length_le he.weights.le, List.take_of_length_le he.x.le]
  simp [List.flatMap, List.append_assoc]

/-- The first record opens the file. -/
theorem actTraceOpen_first (henv : Writes env) (hhidden : 1 ≤ hidden) (htopK : 1 ≤ topK)
    (hmax : topK ≤ 64) :
    actTraceOpen env hidden topK Writer.start =
      (1, ⟨true, some (encodeTraceHeader hidden topK), 0, hidden, topK⟩) := by
  have hsizes : ¬ ((hidden : Int) ≤ 0 ∨ (topK : Int) ≤ 0 ∨ 64 < (topK : Int)) := by omega
  have hwrite := fwriteAll_ok henv [] (headerParts hidden topK)
  rw [List.nil_append] at hwrite
  simp only [actTraceOpen, Writer.start, henv.path, henv.fopen, hwrite, encodeTraceHeader,
    Bool.false_eq_true, Bool.not_true, if_true, if_false, if_neg hsizes]

/-- A record in the opened file. -/
theorem actTraceRecord_open (henv : Writes env) {e : MoeEvent} (he : Shaped hidden topK e)
    {s : Writer} {s' : Writer} {f : Bytes} (hopen : actTraceOpen env hidden topK s = (1, s'))
    (hfile : s'.file = some f) :
    actTraceRecord env hidden topK e s =
      (1, { s' with file := some (f ++ encodeEvent (s'.event + 1) e), event := s'.event + 1 }) := by
  unfold actTraceRecord
  rw [hopen]
  dsimp only
  rw [if_neg (by decide), hfile]
  dsimp only
  rw [fwriteAll_ok henv, recordParts_flatten he, henv.fflush]
  simp

theorem traceEvents_open (henv : Writes env) {events : List MoeEvent}
    (hevents : ∀ e ∈ events, Shaped hidden topK e) (f : Bytes) (n : UInt64) :
    traceEvents env hidden topK events ⟨true, some f, n, hidden, topK⟩ =
      (List.replicate events.length 1,
        ⟨true, some (f ++ encodeEvents n events), n + UInt64.ofNat events.length, hidden, topK⟩) := by
  induction events generalizing f n with
  | nil => simp [traceEvents, encodeEvents]
  | cons e events ih =>
    have hopen : actTraceOpen env hidden topK ⟨true, some f, n, hidden, topK⟩ =
        (1, ⟨true, some f, n, hidden, topK⟩) := by
      unfold actTraceOpen
      rw [if_pos rfl]
      dsimp only
      rw [if_pos ⟨rfl, rfl⟩]
    have hstep := actTraceRecord_open henv (hevents e List.mem_cons_self) hopen rfl
    have hcount : n + 1 + UInt64.ofNat events.length = n + UInt64.ofNat (events.length + 1) := by
      rw [UInt64.ofNat_add, add_comm (UInt64.ofNat events.length), ← add_assoc]
      rfl
    unfold traceEvents
    rw [hstep]
    dsimp only
    rw [ih (fun e he => hevents e (List.mem_cons_of_mem _ he)), hcount, List.length_cons,
      List.replicate_succ, encodeEvents, List.append_assoc]

/-- The file holds the header and one record for every event, and without events there is none. -/
theorem traceEvents_start (henv : Writes env) (hhidden : 1 ≤ hidden) (htopK : 1 ≤ topK)
    (hmax : topK ≤ 64) {events : List MoeEvent} (hevents : ∀ e ∈ events, Shaped hidden topK e)
    (hne : events ≠ []) :
    (traceEvents env hidden topK events Writer.start).1 = List.replicate events.length 1 ∧
      (traceEvents env hidden topK events Writer.start).2.file =
        some (encodeTraceHeader hidden topK ++ encodeEvents 0 events) := by
  cases events with
  | nil => exact absurd rfl hne
  | cons e events =>
    have hstep := actTraceRecord_open henv (hevents e List.mem_cons_self)
      (actTraceOpen_first henv hhidden htopK hmax) rfl
    unfold traceEvents
    rw [hstep]
    dsimp only
    rw [traceEvents_open henv fun e he => hevents e (List.mem_cons_of_mem _ he)]
    refine ⟨rfl, ?_⟩
    rw [encodeEvents, List.append_assoc]

end Writing

/-! ### What is read back -/

/-- The bits of a float that is neither infinite nor a NaN. -/
def finiteBits (w : UInt32) : Prop := w &&& 0x7f800000 ≠ 0x7f800000

def recordOf (event : UInt64) (e : MoeEvent) : TraceRecord UInt32 :=
  ⟨event.toNat, e.layer.toInt, e.ids.map Int32.toInt, e.weights, e.x⟩

/-- The records after the event `n`. -/
def recordsFrom (n : UInt64) : List MoeEvent → List (TraceRecord UInt32)
  | [] => []
  | e :: events => recordOf (n + 1) e :: recordsFrom (n + 1) events

def recordBytes (hidden topK : Nat) : Nat := 12 + 4 * topK + 4 * topK + 4 * hidden

theorem flatMap_length_four {α : Type*} {encode : α → Bytes} (hencode : ∀ a, (encode a).length = 4)
    (xs : List α) : (xs.flatMap encode).length = 4 * xs.length := by
  induction xs with
  | nil => rfl
  | cons a xs ih =>
    rw [List.flatMap_cons, List.length_append, hencode, ih, List.length_cons]
    omega

theorem words_flatMap {α : Type*} {encode : α → Bytes} {value : α → Nat}
    (hencode : ∀ a, (encode a).length = 4) (hvalue : ∀ a, ofLE (encode a) = value a) (xs : List α) :
    words xs.length (xs.flatMap encode) = xs.map value := by
  induction xs with
  | nil => rfl
  | cons a xs ih =>
    rw [List.length_cons, words, List.flatMap_cons, List.take_left' (hencode a),
      List.drop_left' (hencode a), hvalue, ih, List.map_cons]

theorem i32Word_length (v : Int32) : (i32Word v).length = 4 := toLE_length 4 _

theorem cInt_i32Word (v : Int32) : cInt (ofLE (i32Word v)) = v.toInt := by
  have hv : v.toBitVec.toNat < 256 ^ 4 := v.toBitVec.isLt
  unfold i32Word cInt
  rw [ofLE_toLE, Nat.mod_eq_of_lt hv]
  exact (BitVec.toInt_eq_toNat_bmod v.toBitVec).symm

theorem ofLE_u32 (w : UInt32) : ofLE (toLE 4 w.toNat) = w.toNat := by
  rw [ofLE_toLE]
  exact Nat.mod_eq_of_lt w.toNat_lt

theorem encodeEvent_length {hidden topK : Nat} {e : MoeEvent} (he : Shaped hidden topK e)
    (n : UInt64) : (encodeEvent n e).length = recordBytes hidden topK := by
  unfold encodeEvent recordBytes
  simp only [List.length_append, toLE_length, i32Word_length,
    flatMap_length_four i32Word_length, flatMap_length_four fun w : UInt32 => toLE_length 4 w.toNat,
    he.ids, he.weights, he.x]

section Reading
variable {D : Type*} {up : Unpacking D} {path : Str} {hidden topK : Nat}

variable (up path) in
theorem readHeader_short {b : Bytes} (h : b.length < 24) :
    ∃ e, readHeader up path b = .error e :=
  ⟨_, if_pos h⟩

theorem readHeader_encode (hhidden : 1 ≤ hidden) (hmaxHidden : hidden ≤ 65536) (htopK : 1 ≤ topK)
    (hmax : topK ≤ 64) (rest : Bytes) :
    readHeader up path (encodeTraceHeader hidden topK ++ rest) = .ok ⟨hidden, topK⟩ := by
  have hword : ∀ v : Nat, v ≤ 65536 → intWord v = toLE 4 v := by
    intro v hv
    unfold intWord
    congr 1
    omega
  have hsplit : encodeTraceHeader hidden topK ++ rest = actMagic ++ (toLE 4 1 ++ (toLE 4 hidden ++
      (toLE 4 topK ++ (toLE 4 0x01020304 ++ rest)))) := by
    unfold encodeTraceHeader headerParts
    rw [hword hidden hmaxHidden, hword topK (by omega)]
    simp [List.append_assoc]
  have hmagic : actMagic.length = 8 := rfl
  have hdrop : ∀ k, 8 ≤ k → ∀ b : Bytes, (actMagic ++ b).drop k = b.drop (k - 8) := by
    intro k hk b
    rw [List.drop_append, List.drop_of_length_le (by rw [hmagic]; exact hk), hmagic,
      List.nil_append]
  have hhidden' : hidden % 256 ^ 4 = hidden := Nat.mod_eq_of_lt (by omega)
  have htopK' : topK % 256 ^ 4 = topK := Nat.mod_eq_of_lt (by omega)
  rw [hsplit]
  unfold readHeader
  rw [if_neg (by simp [hmagic]; omega)]
  simp only [hdrop, List.take_left' hmagic, drop_toLE_append, take_toLE_append, ofLE_toLE,
    Nat.reduceLeDiff, Nat.reduceSub, List.drop_zero, hhidden', htopK', Nat.le_refl]
  rw [if_neg (by simp), if_neg (by decide), if_neg (by decide), if_neg (by omega)]

theorem iterRecords_nil (h : TraceHeader) : iterRecords up path h [] = ([], none) := by
  rw [iterRecords, if_pos rfl]

variable (up path) in
/-- A record that is cut short is not yielded. -/
theorem iterRecords_short {b : Bytes} (hne : b ≠ []) (hshort : b.length < recordBytes hidden topK) :
    ∃ e, iterRecords up path ⟨hidden, topK⟩ b = ([], some e) := by
  rw [iterRecords, if_neg hne]
  by_cases hprefix : (b.take 12).length ≠ 12
  · rw [dif_pos hprefix]
    exact ⟨_, rfl⟩
  · rw [dif_neg hprefix]
    simp only [List.length_take] at hprefix
    unfold recordBytes at hshort
    dsimp only
    rw [if_pos (by simp only [List.length_take, List.length_drop]; omega)]
    exact ⟨_, rfl⟩

/-- A whole record is yielded as the event it was written for. -/
theorem iterRecords_encodeEvent {e : MoeEvent} (he : Shaped hidden topK e)
    (hfinite : ∀ w ∈ e.weights, up.narrow (up.widen w) = w) (n : UInt64) (rest : Bytes) :
    iterRecords up path ⟨hidden, topK⟩ (encodeEvent n e ++ rest) =
      (recordOf n e :: (iterRecords up path ⟨hidden, topK⟩ rest).1,
        (iterRecords up path ⟨hidden, topK⟩ rest).2) := by
  have hids : (e.ids.flatMap i32Word).length = 4 * topK := by
    rw [flatMap_length_four i32Word_length, he.ids]
  have hweights : (e.weights.flatMap fun w => toLE 4 w.toNat).length = 4 * topK := by
    rw [flatMap_length_four fun w : UInt32 => toLE_length 4 w.toNat, he.weights]
  have hx : (e.x.flatMap fun w => toLE 4 w.toNat).length = 4 * hidden := by
    rw [flatMap_length_four fun w : UInt32 => toLE_length 4 w.toNat, he.x]
  have hsplit : encodeEvent n e ++ rest = toLE 8 n.toNat ++ (i32Word e.layer ++
      (e.ids.flatMap i32Word ++ ((e.weights.flatMap fun w => toLE 4 w.toNat) ++
        ((e.x.flatMap fun w => toLE 4 w.toNat) ++ rest)))) := by
    unfold encodeEvent
    simp only [List.append_assoc]
  have h12 : (encodeEvent n e ++ rest).drop 12 = e.ids.flatMap i32Word ++
      ((e.weights.flatMap fun w => toLE 4 w.toNat) ++
        ((e.x.flatMap fun w => toLE 4 w.toNat) ++ rest)) := by
    rw [hsplit, ← List.append_assoc]
    exact List.drop_left' (by rw [List.length_append, toLE_length, i32Word_length])
  have hlong : 12 ≤ (encodeEvent n e ++ rest).length := by
    rw [List.length_append, encodeEvent_length he, recordBytes]
    omega
  have hne : encodeEvent n e ++ rest ≠ [] := fun hnil => by
    rw [hnil] at hlong
    exact absurd hlong (by decide)
  have hevent : ofLE ((encodeEvent n e ++ rest).take 8) = n.toNat := by
    rw [hsplit, take_toLE_append, ofLE_toLE]
    exact Nat.mod_eq_of_lt n.toNat_lt
  have hlayer : cInt (ofLE (((encodeEvent n e ++ rest).drop 8).take 4)) = e.layer.toInt := by
    rw [hsplit, List.drop_left' (toLE_length 8 _), List.take_left' (i32Word_length _), cInt_i32Word]
  rw [iterRecords, if_neg hne, dif_neg (by rw [List.length_take]; omega)]
  dsimp only
  rw [h12, hevent, hlayer, List.take_left' hids, List.drop_left' hids, List.take_left' hweights,
    List.drop_left' hweights, List.take_left' hx, List.drop_left' hx, if_neg (by omega)]
  have hidsBack : (words topK (e.ids.flatMap i32Word)).map cInt = e.ids.map Int32.toInt := by
    have hwords : ∀ v, ofLE (i32Word v) = (fun v => ofLE (i32Word v)) v := fun _ => rfl
    rw [← he.ids, words_flatMap i32Word_length hwords, List.map_map]
    refine List.map_congr_left fun v _ => ?_
    rw [Function.comp_apply, cInt_i32Word]
  have hweightsBack : (words topK (e.weights.flatMap fun w => toLE 4 w.toNat)).map
      (fun w => up.narrow (up.widen (UInt32.ofNat w))) = e.weights := by
    rw [← he.weights, words_flatMap (fun w : UInt32 => toLE_length 4 w.toNat) ofLE_u32,
      List.map_map]
    conv_rhs => rw [← List.map_id e.weights]
    refine List.map_congr_left fun w hw => ?_
    simp only [Function.comp_apply, UInt32.ofNat_toNat, id]
    exact hfinite w hw
  have hxBack : (words hidden (e.x.flatMap fun w => toLE 4 w.toNat)).map UInt32.ofNat = e.x := by
    rw [← he.x, words_flatMap (fun w : UInt32 => toLE_length 4 w.toNat) ofLE_u32, List.map_map]
    conv_rhs => rw [← List.map_id e.x]
    refine List.map_congr_left fun w _ => ?_
    simp only [Function.comp_apply, UInt32.ofNat_toNat, id]
  rw [hidsBack, hweightsBack, hxBack]
  rfl

theorem encodeEvents_length {events : List MoeEvent}
    (hevents : ∀ e ∈ events, Shaped hidden topK e) (n : UInt64) :
    (encodeEvents n events).length = events.length * recordBytes hidden topK := by
  induction events generalizing n with
  | nil => simp [encodeEvents]
  | cons e events ih =>
    rw [encodeEvents, List.length_append, encodeEvent_length (hevents e List.mem_cons_self),
      ih (fun e he => hevents e (List.mem_cons_of_mem _ he)), List.length_cons, Nat.succ_mul,
      Nat.add_comm]

theorem recordsFrom_length (n : UInt64) (events : List MoeEvent) :
    (recordsFrom n events).length = events.length := by
  induction events generalizing n with
  | nil => rfl
  | cons e events ih => rw [recordsFrom, List.length_cons, ih, List.length_cons]

variable (path) in
/-- Of a cut file exactly the whole records are yielded. -/
theorem iterRecords_take {events : List MoeEvent} (hevents : ∀ e ∈ events, Shaped hidden topK e)
    (hfinite : ∀ e ∈ events, ∀ w ∈ e.weights, up.narrow (up.widen w) = w) (n : UInt64) {m : Nat}
    (hm : m ≤ (encodeEvents n events).length) :
    ∃ stop, iterRecords up path ⟨hidden, topK⟩ ((encodeEvents n events).take m) =
        ((recordsFrom n events).take (m / recordBytes hidden topK), stop) ∧
      (stop = none ↔ m % recordBytes hidden topK = 0) := by
  have hpos : 0 < recordBytes hidden topK := by
    unfold recordBytes
    omega
  induction events generalizing n m with
  | nil =>
    obtain rfl : m = 0 := Nat.le_zero.mp hm
    refine ⟨none, ?_, by simp⟩
    rw [List.take_zero, iterRecords_nil, recordsFrom, List.take_nil]
  | cons e events ih =>
    have he := hevents e List.mem_cons_self
    have hlength := encodeEvent_length he (n + 1)
    rw [encodeEvents, List.length_append, hlength] at hm
    rw [encodeEvents, recordsFrom]
    rcases Nat.eq_zero_or_pos m with rfl | hmpos
    · refine ⟨none, ?_, by simp⟩
      rw [List.take_zero, iterRecords_nil, Nat.zero_div, List.take_zero]
    rcases Nat.lt_or_ge m (recordBytes hidden topK) with hshort | hwhole
    · have hcut : ((encodeEvent (n + 1) e ++ encodeEvents (n + 1) events).take m).length = m := by
        rw [List.length_take, List.length_append, hlength]
        omega
      have hne : (encodeEvent (n + 1) e ++ encodeEvents (n + 1) events).take m ≠ [] := by
        rw [← List.length_pos_iff, hcut]
        exact hmpos
      obtain ⟨stop, hstop⟩ := iterRecords_short up path hne (hcut ▸ hshort)
      refine ⟨some stop, ?_, ?_⟩
      · rw [hstop, Nat.div_eq_of_lt hshort, List.take_zero]
      · rw [Nat.mod_eq_of_lt hshort]
        simp
        omega
    · obtain ⟨d, rfl⟩ := Nat.exists_eq_add_of_le hwhole
      obtain ⟨stop, hmore, hiff⟩ := ih (fun e he => hevents e (List.mem_cons_of_mem _ he))
        (fun e he => hfinite e (List.mem_cons_of_mem _ he)) (n + 1) (m := d) (by omega)
      refine ⟨stop, ?_, ?_⟩
      · have hcut : (encodeEvent (n + 1) e ++ encodeEvents (n + 1) events).take
            (recordBytes hidden topK + d) =
              encodeEvent (n + 1) e ++ (encodeEvents (n + 1) events).take d := by
          rw [← hlength, List.take_length_add_append]
        rw [hcut, iterRecords_encodeEvent he (hfinite e List.mem_cons_self), hmore,
          Nat.add_div_left _ hpos, List.take_succ_cons]
      · rw [hiff, Nat.add_mod_left]

/-- Fewer than `2 ^ 64` events are numbered from one. -/
theorem recordsFrom_events {events : List MoeEvent} (n : UInt64)
    (hfew : n.toNat + events.length < 2 ^ 64) :
    (recordsFrom n events).map TraceRecord.event = List.range' (n.toNat + 1) events.length := by
  induction events generalizing n with
  | nil => rfl
  | cons e events ih =>
    rw [List.length_cons] at hfew
    have hnext : (n + 1).toNat = n.toNat + 1 := by
      rw [UInt64.toNat_add]
      exact Nat.mod_eq_of_lt (by change n.toNat + 1 < _; omega)
    rw [recordsFrom, List.map_cons, ih (n + 1) (by rw [hnext]; omega), hnext, List.length_cons,
      List.range'_succ, recordOf, hnext]

end Reading

/-- The file of any sequence of events is read back as these events, and any cut of it as the
events wholly within the cut; the reader ends without raising exactly on a record boundary. -/
theorem actTrace_roundTrip {D : Type*} {up : Unpacking D} {path : Str} {env : TraceEnv}
    {hidden topK : Nat} {events : List MoeEvent} (henv : Writes env)
    (hconvert : ∀ w, finiteBits w → up.narrow (up.widen w) = w)
    (hhidden : 1 ≤ hidden ∧ hidden ≤ 65536) (htopK : 1 ≤ topK ∧ topK ≤ 64)
    (hevents : ∀ e ∈ events, Shaped hidden topK e)
    (hfinite : ∀ e ∈ events, (∀ w ∈ e.weights, finiteBits w) ∧ ∀ w ∈ e.x, finiteBits w) :
    (events = [] → (traceEvents env hidden topK events Writer.start).2.file = none) ∧
    (events ≠ [] → ∃ file,
      (traceEvents env hidden topK events Writer.start).1 = List.replicate events.length 1 ∧
      (traceEvents env hidden topK events Writer.start).2.file = some file ∧
      file.length = 24 + events.length * recordBytes hidden topK ∧
      iterTrace up path file = .ok (⟨hidden, topK⟩, recordsFrom 0 events, none) ∧
      (∀ n, n < 24 → ∃ e, iterTrace up path (file.take n) = .error e) ∧
      ∀ n, 24 ≤ n → n ≤ file.length → ∃ stop,
        iterTrace up path (file.take n) = .ok (⟨hidden, topK⟩,
          (recordsFrom 0 events).take ((n - 24) / recordBytes hidden topK), stop) ∧
        (stop = none ↔ (n - 24) % recordBytes hidden topK = 0)) ∧
    (events.length < 2 ^ 64 →
      (recordsFrom 0 events).map TraceRecord.event = List.range' 1 events.length) := by
  have hback : ∀ e ∈ events, ∀ w ∈ e.weights, up.narrow (up.widen w) = w := fun e he w hw =>
    hconvert w ((hfinite e he).1 w hw)
  refine ⟨fun hnil => by rw [hnil]; rfl, fun hne => ?_, fun hfew => ?_⟩
  · obtain ⟨hcodes, hfile⟩ := traceEvents_start henv hhidden.1 htopK.1 htopK.2 hevents hne
    have hheader : (encodeTraceHeader hidden topK).length = 24 := by
      unfold encodeTraceHeader headerParts intWord
      simp [actMagic]
    have hlength : (encodeTraceHeader hidden topK ++ encodeEvents 0 events).length =
        24 + events.length * recordBytes hidden topK := by
      rw [List.length_append, hheader, encodeEvents_length hevents]
    have hcut : ∀ n, 24 ≤ n → n ≤ (encodeTraceHeader hidden topK ++ encodeEvents 0 events).length →
        ∃ stop, iterTrace up path ((encodeTraceHeader hidden topK ++ encodeEvents 0 events).take n) =
          .ok (⟨hidden, topK⟩, (recordsFrom 0 events).take ((n - 24) / recordBytes hidden topK),
            stop) ∧ (stop = none ↔ (n - 24) % recordBytes hidden topK = 0) := by
      intro n hn hmax
      obtain ⟨d, rfl⟩ := Nat.exists_eq_add_of_le hn
      rw [List.length_append, hheader] at hmax
      obtain ⟨stop, hrun, hiff⟩ := iterRecords_take path hevents hback 0 (m := d)
        (by omega)
      have htake : (encodeTraceHeader hidden topK ++ encodeEvents 0 events).take (24 + d) =
          encodeTraceHeader hidden topK ++ (encodeEvents 0 events).take d := by
        rw [← hheader, List.take_length_add_append]
      refine ⟨stop, ?_, by rwa [Nat.add_sub_cancel_left]⟩
      rw [htake, iterTrace, readHeader_encode hhidden.1 hhidden.2 htopK.1 htopK.2]
      dsimp only
      rw [List.drop_left' hheader, hrun, Nat.add_sub_cancel_left]
    refine ⟨_, hcodes, hfile, hlength, ?_, fun n hn => ?_, hcut⟩
    · obtain ⟨stop, hrun, hiff⟩ := hcut _ (by omega) (le_refl _)
      have hpos : 0 < recordBytes hidden topK := by
        unfold recordBytes
        omega
      rw [hlength, Nat.add_sub_cancel_left] at hiff hrun
      rw [Nat.mul_mod_left] at hiff
      rw [List.take_of_length_le hlength.le, Nat.mul_div_cancel _ hpos,
        List.take_of_length_le (recordsFrom_length 0 events).le, hiff.mpr rfl] at hrun
      exact hrun
    · obtain ⟨e, he⟩ := readHeader_short up path
        (b := (encodeTraceHeader hidden topK ++ encodeEvents 0 events).take n)
        (by rw [List.length_take]; omega)
      refine ⟨e, ?_⟩
      rw [iterTrace, he]
  · exact recordsFrom_events 0 (by simpa using hfew)

/-- A file that takes every write. -/
def wholeFile : TraceEnv := ⟨true, true, fun f b => (f ++ b, true), fun _ => true⟩

theorem finiteBits_half : finiteBits 0x3f000000 := by
  unfold finiteBits
  decide

theorem actTrace_roundTrip_oneEvent : ∃ file,
    (traceEvents wholeFile 1 1 [⟨3, [-1], [0x3f000000], [0x3f000000]⟩] Writer.start).2.file =
      some file ∧
    iterTrace (⟨id, id, fun _ => []⟩ : Unpacking UInt32) [] file =
      .ok (⟨1, 1⟩, recordsFrom 0 [⟨3, [-1], [0x3f000000], [0x3f000000]⟩], none) := by
  obtain ⟨file, -, hfile, -, hread, -⟩ := (@actTrace_roundTrip UInt32
    ⟨id, id, fun _ => []⟩ [] wholeFile 1 1 [⟨3, [-1], [0x3f000000], [0x3f000000]⟩]
    ⟨rfl, rfl, fun _ _ => rfl, fun _ => rfl⟩ (fun _ _ => rfl) (by decide) (by decide)
    (fun e he => by rw [List.mem_singleton.mp he]; exact ⟨rfl, rfl, rfl⟩)
    (fun e he => by
      rw [List.mem_singleton.mp he]
      refine ⟨fun w hw => ?_, fun w hw => ?_⟩
      · rw [List.mem_singleton.mp hw]
        exact finiteBits_half
      · rw [List.mem_singleton.mp hw]
        exact finiteBits_half)).2.1 (by simp)
  exact ⟨file, hfile, hread⟩

end Kvl.ActTrace

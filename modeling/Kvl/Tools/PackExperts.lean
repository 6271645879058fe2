import Kvl.Lib.Dict
import Kvl.Lib.Extents
import Kvl.Lib.PyText
import Kvl.Store.Encode

/-!
# Packing experts

The packers write the routed experts of some layers into an expert store, or append those that
it does not have yet. They differ in the bytes of a tensor and in the dtype of the index.
-/

namespace Kvl.PackExperts

set_option autoImplicit false

open PyText (Str text decimal pyInt)
open Extents (pad)

inductive Part
  | gateProj
  | upProj
  | downProj
  deriving DecidableEq

def Part.text : Part → Str
  | .gateProj => PyText.text "gate_proj"
  | .upProj => PyText.text "up_proj"
  | .downProj => PyText.text "down_proj"

/-- The order of the parts in a record. -/
def parts : List Part := [.gateProj, .upProj, .downProj]

/-! ### The names -/

def stripPrefix (start s : Str) : Option Str :=
  if start.isPrefixOf s then some (s.drop start.length) else none

def isDigit (c : Nat) : Bool := (decimal c).isSome

/-- `PAT.match`: the two numbers and the part. -/
def matchName (name : Str) : Option (Str × Str × Part) :=
  (stripPrefix (text "language_model.model.layers.") name).bind fun s =>
    if s.takeWhile isDigit = [] then none
    else (stripPrefix (text ".mlp.experts.") (s.dropWhile isDigit)).bind fun t =>
      if t.takeWhile isDigit = [] then none
      else (stripPrefix (text ".") (t.dropWhile isDigit)).bind fun u =>
        (parts.find? fun part =>
            u = part.text ++ text ".weight" ∨ u = part.text ++ text ".weight\n").map fun part =>
          (s.takeWhile isDigit, t.takeWhile isDigit, part)

/-- The tensor and the shard of each part of an expert. -/
abbrev Entries := List ((Nat × Nat) × List (Part × (Str × Str)))

/-- `wanted is None or L in wanted`. -/
def isWanted (wanted : Option (List Int)) (layer : Nat) : Bool :=
  match wanted with
  | none => true
  | some layers => decide ((layer : Int) ∈ layers)

/-- One item of the weight map. A number of too many digits raises. -/
def readEntry (wanted : Option (List Int)) (entries : Entries) (item : Str × Str) :
    Option Entries :=
  match matchName item.1 with
  | none => some entries
  | some (l, e, part) =>
    (pyInt l).bind fun layer => (pyInt e).map fun expert =>
      if isWanted wanted layer.toNat then
        Dict.modify (layer.toNat, expert.toNat)
          (fun tensors => Dict.set part item (tensors.getD [])) entries
      else entries

def readEntries (weightMap : List (Str × Str)) (wanted : Option (List Int)) : Option Entries :=
  weightMap.foldlM (readEntry wanted) []

/-- Whether a part of an expert is missing. -/
def incomplete (entry : (Nat × Nat) × List (Part × (Str × Str))) : Bool :=
  parts.any fun part => decide (part ∉ entry.2.map Prod.fst)

/-! ### The model directory -/

structure TensorMeta where
  dtype : Str
  shape : List Int
  /-- `data_offsets` -/
  start : Int
  stop : Int

/-- A safetensors file: where its data starts, its header and its bytes. -/
structure Shard where
  base : Nat
  header : List (Str × TensorMeta)
  bytes : Bytes

structure ModelDir where
  weightMap : List (Str × Str)
  /-- `none` where there is no such file, or none with a header -/
  shard : Str → Option Shard
  /-- `num_hidden_layers` and `n_routed_experts`, `none` where reading them raises -/
  dims : Option (Int × Int)

/-- A packer: its dtype, and what it writes for a tensor, with `false` where it raises. -/
structure Packer where
  dtype : UInt32
  emit : ModelDir → Str × Str → Bytes × Bool

/-- The tensor of a shard that the packers take, and the bytes from its start on. -/
def locate (m : ModelDir) (tensor : Str × Str) : Option (TensorMeta × Bytes) :=
  (m.shard tensor.2).bind fun shard =>
    (Dict.get tensor.1 shard.header).bind fun entry =>
      if entry.dtype ≠ text "BF16" ∨ (shard.base : Int) + entry.start < 0 then none
      else some (entry, shard.bytes.drop ((shard.base : Int) + entry.start).toNat)

/-- The copy of `pack_experts.py`, which writes what it reads before it notices a short read. -/
def emitBf16 (m : ModelDir) (tensor : Str × Str) : Bytes × Bool :=
  match locate m tensor with
  | none => ([], false)
  | some (entry, rest) =>
    let n := entry.stop - entry.start
    if n < -1 then ([], false)
    else if n = -1 then (rest, false)
    else (rest.take n.toNat, decide (n ≤ rest.length))

/-- `load_tensor` and a quantiser of its bytes and shape. -/
def emitQuantised (quantize : Bytes → List Int → Option Bytes) (m : ModelDir)
    (tensor : Str × Str) : Bytes × Bool :=
  match locate m tensor with
  | none => ([], false)
  | some (entry, rest) =>
    let n := entry.stop - entry.start
    if n < 0 ∨ (rest.length : Int) < n then ([], false)
    else match quantize (rest.take n.toNat) entry.shape with
      | none => ([], false)
      | some blob => (blob, true)

def packerBf16 : Packer := ⟨dtypeBF16, emitBf16⟩

def packerQ8 (quantizeRows : Bytes → List Int → Option Bytes) : Packer :=
  ⟨dtypeQ8Row, emitQuantised quantizeRows⟩

def packerQ5 (quantizeG128 : Bytes → List Int → Option Bytes) : Packer :=
  ⟨dtypeQ5G128, emitQuantised quantizeG128⟩

/-! ### Writing the records -/

/-- A record before it is packed into its struct. -/
structure NewRecord where
  layer : Nat
  expert : Nat
  fileOffset : Nat
  readBytes : Nat
  payloadBytes : Nat
  /-- the offset and the size of each part -/
  spans : List (Nat × Nat)

def writeParts (p : Packer) (m : ModelDir) (tensors : List (Part × (Str × Str))) (start : Nat) :
    List Part → Bytes → List (Nat × Nat) → Bytes × Option (List (Nat × Nat))
  | [], out, spans => (out, some spans)
  | part :: rest, out, spans =>
    match Dict.get part tensors with
    | none => (out, none)
    | some tensor =>
      let e := p.emit m tensor
      if e.2 then
        writeParts p m tensors start rest (out ++ e.1)
          (spans ++ [(out.length - start, e.1.length)])
      else (out ++ e.1, none)

/-- One expert. -/
def writeEntry (p : Packer) (m : ModelDir) (out : Bytes)
    (entry : (Nat × Nat) × List (Part × (Str × Str))) : Bytes × Option NewRecord :=
  let out := pad 0 4096 out
  let w := writeParts p m entry.2 out.length parts out []
  (match w.2 with | none => w.1 | some _ => pad 0 4096 w.1,
    w.2.map fun spans =>
      ⟨entry.1.1, entry.1.2, out.length, (pad 0 4096 w.1).length - out.length,
        w.1.length - out.length, spans⟩)

def writeEntries (p : Packer) (m : ModelDir) :
    Entries → Bytes → List NewRecord → Bytes × Option (List NewRecord)
  | [], out, new => (out, some new)
  | entry :: rest, out, new =>
    let w := writeEntry p m out entry
    match w.2 with
    | none => (w.1, none)
    | some record => writeEntries p m rest w.1 (new ++ [record])

/-- `sorted(entries.items())`. -/
def sortEntries (entries : Entries) : Entries :=
  entries.mergeSort fun x y => x.1.1 < y.1.1 ∨ (x.1.1 = y.1.1 ∧ x.1.2 ≤ y.1.2)

/-! ### The index -/

/-- `load_existing`. -/
def loadExisting (dtype : UInt32) (idx : Option Bytes) :
    Option (Option ExpertIndexHeader × List ExpertRecord) :=
  match idx with
  | none => some (none, [])
  | some raw =>
    if raw.length < headerBytes then none
    else
      let h := decodeHeader raw
      if h.magic ≠ expertMagic ∨ h.version ≠ expertVersion ∨ h.align ≠ 4096 ∨ h.dtype ≠ dtype ∨
          h.recordsOffset.toNat ≠ headerBytes then none
      else (freadMany decodeRecord recordBytes h.nRecords.toNat (raw.drop headerBytes)).map
        fun records => (some h, records.1)

/-- `REC.pack`, `none` where a number does not fit. -/
def NewRecord.pack (r : NewRecord) : Option ExpertRecord :=
  match r.spans with
  | [gate, up, down] =>
    if r.layer < 2 ^ 32 ∧ r.expert < 2 ^ 32 ∧ r.fileOffset < 2 ^ 64 ∧ r.readBytes < 2 ^ 64 ∧
        r.payloadBytes < 2 ^ 64 ∧ gate.1 < 2 ^ 64 ∧ gate.2 < 2 ^ 64 ∧ up.1 < 2 ^ 64 ∧
        up.2 < 2 ^ 64 ∧ down.1 < 2 ^ 64 ∧ down.2 < 2 ^ 64 then
      some
        { layer := UInt32.ofNat r.layer, expert := UInt32.ofNat r.expert
          fileOffset := UInt64.ofNat r.fileOffset, readBytes := UInt64.ofNat r.readBytes
          payloadBytes := UInt64.ofNat r.payloadBytes
          gateOff := UInt64.ofNat gate.1, gateBytes := UInt64.ofNat gate.2
          upOff := UInt64.ofNat up.1, upBytes := UInt64.ofNat up.2
          downOff := UInt64.ofNat down.1, downBytes := UInt64.ofNat down.2 }
    else none
  | _ => none

/-- `experts.bin` and `experts.idx`. -/
structure OutDir where
  bin : Option Bytes
  idx : Option Bytes
  deriving DecidableEq

/-- A run ends with an exception before the index is opened for writing, with one after that, or
it ends well. -/
inductive Outcome
  | exits (out : OutDir)
  | torn (bin : Bytes)
  | done (out : OutDir)

def newHeader (dtype : UInt32) (dims : Int × Int) (count size : Nat) : ExpertIndexHeader where
  magic := expertMagic
  version := expertVersion
  align := 4096
  nLayers := UInt32.ofNat dims.1.toNat
  nExperts := UInt32.ofNat dims.2.toNat
  nRecords := UInt32.ofNat count
  dtype := dtype
  recordsOffset := 48
  dataFileBytes := UInt64.ofNat size

/-- What `HDR.pack` takes. -/
def headerFits (dims : Int × Int) (count size : Nat) : Prop :=
  0 ≤ dims.1 ∧ dims.1 < 2 ^ 32 ∧ 0 ≤ dims.2 ∧ dims.2 < 2 ^ 32 ∧ count < 2 ^ 32 ∧ size < 2 ^ 64

instance (dims : Int × Int) (count size : Nat) : Decidable (headerFits dims count size) := by
  unfold headerFits
  infer_instance

def writeIndex (dtype : UInt32) (dims : Int × Int) (bin : Bytes) (recs : List ExpertRecord)
    (new : List NewRecord) : Outcome :=
  match new.mapM NewRecord.pack with
  | none => .torn bin
  | some packed =>
    let count := (recs ++ packed).length
    if headerFits dims count bin.length then
      .done ⟨some bin,
        some (encodeIndex (newHeader dtype dims count bin.length) (recs ++ packed) [])⟩
    else .torn bin

/-! ### The runs -/

/-- The part of a run that writes. -/
def writeStore (p : Packer) (m : ModelDir) (append : Bool) (out : OutDir) (dims : Int × Int)
    (recs : List ExpertRecord) (entries : Entries) : Outcome :=
  let w := writeEntries p m (sortEntries entries) (if append then out.bin.getD [] else []) []
  match w.2 with
  | none => .exits ⟨some w.1, out.idx⟩
  | some new => writeIndex p.dtype dims w.1 recs new

def keyOf (r : ExpertRecord) : Nat × Nat := (r.layer.toNat, r.expert.toNat)

def newEntries (recs : List ExpertRecord) (entries : Entries) : Entries :=
  entries.filter fun entry => decide (entry.1 ∉ recs.map keyOf)

/-- Whether every shard that is needed is there. -/
def readable (m : ModelDir) (entries : Entries) : Bool :=
  entries.all fun entry => entry.2.all fun part => (m.shard part.2.2).isSome

def dimsMatch (old : Option ExpertIndexHeader) (dims : Int × Int) : Bool :=
  match old with
  | none => true
  | some h => decide ((h.nLayers.toNat : Int) = dims.1 ∧ (h.nExperts.toNat : Int) = dims.2)

/-- The dimensions that `pack_experts.py` takes where the configuration has none. -/
def dimsOf (entries : Entries) : Int × Int :=
  (((entries.map fun entry => entry.1.1).foldl max 0 : Nat) + 1,
    ((entries.map fun entry => entry.1.2).foldl max 0 : Nat) + 1)

/-- What is in the store already. -/
def existing (p : Packer) (append : Bool) (out : OutDir) :
    Option (Option ExpertIndexHeader × List ExpertRecord) :=
  if append then loadExisting p.dtype out.idx else some (none, [])

/-- `main` of `pack_experts.py`. -/
def packExperts (m : ModelDir) (append : Bool) (wanted : Option (List Int)) (out : OutDir) :
    Outcome :=
  match readEntries m.weightMap wanted with
  | none => .exits out
  | some entries =>
    if entries = [] ∨ entries.any incomplete then .exits out
    else match existing packerBf16 append out with
      | none => .exits out
      | some (old, recs) =>
        let new := newEntries recs entries
        if new = [] then .done out
        else if ¬ readable m new then .exits out
        else
          let dims := m.dims.getD (dimsOf new)
          if dimsMatch old dims then writeStore packerBf16 m append out dims recs new
          else .exits out

/-- `main` of the packers that quantise, which read the configuration first. -/
def packQuantised (p : Packer) (m : ModelDir) (append : Bool) (wanted : Option (List Int))
    (out : OutDir) : Outcome :=
  match readEntries m.weightMap wanted with
  | none => .exits out
  | some entries =>
    if entries = [] ∨ entries.any incomplete then .exits out
    else match m.dims with
      | none => .exits out
      | some dims =>
        match existing p append out with
        | none => .exits out
        | some (old, recs) =>
          if ¬ dimsMatch old dims then .exits out
          else
            let new := newEntries recs entries
            if new = [] then .done out
            else if ¬ readable m new then .exits out
            else writeStore p m append out dims recs new

def packExpertsQ8 (quantizeRows : Bytes → List Int → Option Bytes) :=
  packQuantised (packerQ8 quantizeRows)

def packExpertsQ5 (quantizeG128 : Bytes → List Int → Option Bytes) :=
  packQuantised (packerQ5 quantizeG128)

/-- The packers of experts. -/
inductive Tool
  | bf16
  | q8 (quantizeRows : Bytes → List Int → Option Bytes)
  | q5 (quantizeG128 : Bytes → List Int → Option Bytes)

def Tool.packer : Tool → Packer
  | .bf16 => packerBf16
  | .q8 quantizeRows => packerQ8 quantizeRows
  | .q5 quantizeG128 => packerQ5 quantizeG128

def Tool.pack : Tool → ModelDir → Bool → Option (List Int) → OutDir → Outcome
  | .bf16 => packExperts
  | .q8 quantizeRows => packExpertsQ8 quantizeRows
  | .q5 quantizeG128 => packExpertsQ5 quantizeG128

/-- The data file as far as a run gets. -/
def Outcome.written : Outcome → Option Bytes
  | .exits out => out.bin
  | .torn bin => some bin
  | .done out => out.bin

def Outcome.done? : Outcome → Option OutDir
  | .done out => some out
  | _ => none

theorem done?_getD {outcome : Outcome} (h : outcome.done?.isSome) (out : OutDir) :
    outcome = .done (outcome.done?.getD out) := by
  cases outcome with
  | done out => rfl
  | exits out => cases h
  | torn bin => cases h

/-- What a run in append mode leaves that is stopped before it opens the index for writing. -/
inductive Stopped (out : OutDir) (outcome : Outcome) : OutDir → Prop
  | early : Stopped out outcome out
  | writing (bin written : Bytes) : outcome.written = some written → bin <+: written →
      out.bin.getD [] <+: bin → Stopped out outcome ⟨some bin, out.idx⟩

/-- Runs in append mode; the list are the layers of those that end well. -/
inductive Runs (tool : Tool) (m : ModelDir) (start : OutDir) :
    List (Option (List Int)) → OutDir → Prop
  | start : Runs tool m start [] start
  | done {ws : List (Option (List Int))} {out out' : OutDir} (wanted : Option (List Int)) :
      Runs tool m start ws out → tool.pack m true wanted out = .done out' →
        Runs tool m start (ws ++ [wanted]) out'
  | raised {ws : List (Option (List Int))} {out out' : OutDir} (wanted : Option (List Int)) :
      Runs tool m start ws out → tool.pack m true wanted out = .exits out' →
        Runs tool m start ws out'
  | stopped {ws : List (Option (List Int))} {out out' : OutDir} (wanted : Option (List Int)) :
      Runs tool m start ws out → Stopped out (tool.pack m true wanted out) out' →
        Runs tool m start ws out'

/-! ### The entries -/

theorem readEntry_filter (wanted : Option (List Int)) (entries : Entries) (item : Str × Str) :
    readEntry wanted (entries.filter fun entry => isWanted wanted entry.1.1) item =
      (readEntry none entries item).map
        (List.filter fun entry => isWanted wanted entry.1.1) := by
  unfold readEntry
  cases matchName item.1 with
  | none => rfl
  | some name =>
    obtain ⟨l, e, part⟩ := name
    dsimp only
    cases pyInt l with
    | none => rfl
    | some layer =>
      cases pyInt e with
      | none => rfl
      | some expert =>
        have hall : isWanted none layer.toNat = true := rfl
        rw [Option.bind_some, Option.bind_some, Option.map_some, Option.map_some, Option.map_some,
          if_pos hall]
        have hfilter := @Dict.filter_modify _ _ _ (layer.toNat, expert.toNat)
          (fun tensors => Dict.set part item (tensors.getD [])) entries
          (fun key => isWanted wanted key.1)
        exact congrArg some hfilter.symm

/-- A run with fewer layers takes the entries of those layers. -/
theorem readEntries_filter (weightMap : List (Str × Str)) (wanted : Option (List Int)) :
    readEntries weightMap wanted = (readEntries weightMap none).map
      (List.filter fun entry => isWanted wanted entry.1.1) := by
  have hall (entries : Entries) :
      weightMap.foldlM (readEntry wanted) (entries.filter fun entry => isWanted wanted entry.1.1) =
        (weightMap.foldlM (readEntry none) entries).map
          (List.filter fun entry => isWanted wanted entry.1.1) := by
    induction weightMap generalizing entries with
    | nil => rfl
    | cons item rest ih =>
      rw [List.foldlM_cons, List.foldlM_cons, readEntry_filter]
      cases readEntry none entries item with
      | none => rfl
      | some next => exact ih next
  exact hall []

theorem readEntry_nodup {wanted : Option (List Int)} {entries next : Entries} {item : Str × Str}
    (hnodup : (entries.map Prod.fst).Nodup) (h : readEntry wanted entries item = some next) :
    (next.map Prod.fst).Nodup := by
  unfold readEntry at h
  split at h
  · cases h
    exact hnodup
  · obtain ⟨layer, -, h⟩ := Option.bind_eq_some_iff.mp h
    obtain ⟨expert, -, rfl⟩ := Option.map_eq_some_iff.mp h
    split
    · exact Dict.nodup_modify hnodup
    · exact hnodup

theorem readEntries_nodup {weightMap : List (Str × Str)} {wanted : Option (List Int)}
    {entries : Entries} (h : readEntries weightMap wanted = some entries) :
    (entries.map Prod.fst).Nodup := by
  have hall : ∀ start : Entries, (start.map Prod.fst).Nodup →
      weightMap.foldlM (readEntry wanted) start = some entries → (entries.map Prod.fst).Nodup := by
    clear h
    induction weightMap with
    | nil =>
      intro start hstart hrun
      cases hrun
      exact hstart
    | cons item rest ih =>
      intro start hstart hrun
      rw [List.foldlM_cons] at hrun
      obtain ⟨next, hnext, hrun⟩ := Option.bind_eq_some_iff.mp hrun
      exact ih next (readEntry_nodup hstart hnext) hrun
  exact hall [] List.nodup_nil h

/-! ### The records -/

section
variable {p : Packer} {m : ModelDir}

/-- What is written for one part. -/
def blob (p : Packer) (m : ModelDir) (tensors : List (Part × (Str × Str))) (part : Part) :
    Option Bytes :=
  (Dict.get part tensors).bind fun tensor =>
    if (p.emit m tensor).2 then some (p.emit m tensor).1 else none

structure Blobs (p : Packer) (m : ModelDir) (tensors : List (Part × (Str × Str)))
    (gate up down : Bytes) : Prop where
  gate : blob p m tensors .gateProj = some gate
  up : blob p m tensors .upProj = some up
  down : blob p m tensors .downProj = some down

def content (gate up down : Bytes) : Bytes := pad 0 4096 (gate ++ up ++ down)

/-- An expert in the data file. -/
structure Expert where
  key : Nat × Nat
  gate : Bytes
  up : Bytes
  down : Bytes
  offset : Nat

def Expert.extent (e : Expert) : Extents.Extent UInt8 := ⟨e.offset, content e.gate e.up e.down⟩

def Expert.record (e : Expert) : NewRecord where
  layer := e.key.1
  expert := e.key.2
  fileOffset := e.offset
  readBytes := (content e.gate e.up e.down).length
  payloadBytes := (e.gate ++ e.up ++ e.down).length
  spans := [(0, e.gate.length), (e.gate.length, e.up.length),
    ((e.gate ++ e.up).length, e.down.length)]

theorem writeParts_of_blob {tensors : List (Part × (Str × Str))} {start : Nat} {part : Part}
    {b : Bytes} (h : blob p m tensors part = some b) (rest : List Part) (out : Bytes)
    (spans : List (Nat × Nat)) :
    writeParts p m tensors start (part :: rest) out spans =
      writeParts p m tensors start rest (out ++ b) (spans ++ [(out.length - start, b.length)]) := by
  obtain ⟨tensor, htensor, h⟩ := Option.bind_eq_some_iff.mp h
  split at h
  · rename_i hok
    cases h
    rw [writeParts, htensor]
    exact if_pos hok
  · cases h

theorem writeParts_of_none {tensors : List (Part × (Str × Str))} {start : Nat} {part : Part}
    (h : blob p m tensors part = none) (rest : List Part) (out : Bytes)
    (spans : List (Nat × Nat)) :
    (writeParts p m tensors start (part :: rest) out spans).2 = none := by
  rw [writeParts]
  unfold blob at h
  cases htensor : Dict.get part tensors with
  | none => rfl
  | some tensor =>
    rw [htensor, Option.bind_some] at h
    have hok : ¬ (p.emit m tensor).2 := fun hok => by
      rw [if_pos hok] at h
      cases h
    exact congrArg Prod.snd (if_neg hok)

theorem writeParts_extends (tensors : List (Part × (Str × Str))) (start : Nat) (todo : List Part)
    (out : Bytes) (spans : List (Nat × Nat)) :
    out <+: (writeParts p m tensors start todo out spans).1 := by
  induction todo generalizing out spans with
  | nil => exact List.prefix_refl out
  | cons part rest ih =>
    rw [writeParts]
    cases Dict.get part tensors with
    | none => exact List.prefix_refl out
    | some tensor =>
      dsimp only
      split
      · exact (List.prefix_append out _).trans (ih _ _)
      · exact List.prefix_append out _

/-- All parts of an expert are written, or the run raises. -/
theorem writeParts_spec (tensors : List (Part × (Str × Str))) (out : Bytes) :
    (∃ gate up down, Blobs p m tensors gate up down ∧
      writeParts p m tensors out.length parts out [] =
        (out ++ (gate ++ up ++ down),
          some [(0, gate.length), (gate.length, up.length), ((gate ++ up).length, down.length)])) ∨
      ((writeParts p m tensors out.length parts out []).2 = none ∧
        ¬ ∃ gate up down, Blobs p m tensors gate up down) := by
  unfold parts
  cases hgate : blob p m tensors .gateProj with
  | none =>
    refine Or.inr ⟨writeParts_of_none hgate _ _ _, fun ⟨_, _, _, h⟩ => ?_⟩
    cases hgate.symm.trans h.gate
  | some gate =>
    rw [writeParts_of_blob hgate]
    cases hup : blob p m tensors .upProj with
    | none =>
      refine Or.inr ⟨writeParts_of_none hup _ _ _, fun ⟨_, _, _, h⟩ => ?_⟩
      cases hup.symm.trans h.up
    | some up =>
      rw [writeParts_of_blob hup]
      cases hdown : blob p m tensors .downProj with
      | none =>
        refine Or.inr ⟨writeParts_of_none hdown _ _ _, fun ⟨_, _, _, h⟩ => ?_⟩
        cases hdown.symm.trans h.down
      | some down =>
        rw [writeParts_of_blob hdown]
        refine Or.inl ⟨gate, up, down, ⟨hgate, hup, hdown⟩, ?_⟩
        have hafter (b : Bytes) : (out ++ b).length - out.length = b.length := by
          rw [List.length_append, Nat.add_sub_cancel_left]
        rw [writeParts, List.append_assoc out gate up, List.append_assoc out (gate ++ up) down,
          Nat.sub_self, hafter, hafter]
        rfl

theorem pad_aligned (out : Bytes) : 4096 ∣ (pad 0 4096 out).length := by
  rw [Extents.length_pad (by decide)]
  exact Extents.dvd_alignUp _ _

theorem prefix_pad (out : Bytes) : out <+: pad 0 4096 out := List.prefix_append _ _

theorem writeEntry_spec (out : Bytes) (entry : (Nat × Nat) × List (Part × (Str × Str))) :
    (∃ gate up down, Blobs p m entry.2 gate up down ∧
      writeEntry p m out entry = (pad 0 4096 out ++ content gate up down,
        some (Expert.record ⟨entry.1, gate, up, down, (pad 0 4096 out).length⟩))) ∨
      ((writeEntry p m out entry).2 = none ∧ ¬ ∃ gate up down, Blobs p m entry.2 gate up down) := by
  cases writeParts_spec (p := p) (m := m) entry.2 (pad 0 4096 out) with
  | inl h =>
    obtain ⟨gate, up, down, hblobs, hwrite⟩ := h
    refine Or.inl ⟨gate, up, down, hblobs, ?_⟩
    have hpad : pad 0 4096 (pad 0 4096 out ++ (gate ++ up ++ down)) =
        pad 0 4096 out ++ content gate up down :=
      Extents.pad_append (by decide) 0 (pad_aligned out) _
    unfold writeEntry
    dsimp only
    rw [hwrite]
    dsimp only [Option.map_some]
    rw [hpad, List.length_append, Nat.add_sub_cancel_left, List.length_append,
      Nat.add_sub_cancel_left]
    rfl
  | inr h =>
    refine Or.inr ⟨?_, h.2⟩
    unfold writeEntry
    dsimp only
    rw [h.1]
    rfl

theorem writeEntry_extends (out : Bytes) (entry : (Nat × Nat) × List (Part × (Str × Str))) :
    out <+: (writeEntry p m out entry).1 := by
  have hparts := (prefix_pad out).trans
    (writeParts_extends (p := p) (m := m) entry.2 (pad 0 4096 out).length parts (pad 0 4096 out) [])
  unfold writeEntry
  dsimp only
  split
  · exact hparts
  · exact hparts.trans (prefix_pad _)

theorem writeEntries_prefix (entries : Entries) (out : Bytes) (new : List NewRecord) :
    out <+: (writeEntries p m entries out new).1 := by
  induction entries generalizing out new with
  | nil => exact List.prefix_refl out
  | cons entry rest ih =>
    rw [writeEntries]
    cases h : (writeEntry p m out entry).2 with
    | none => exact writeEntry_extends out entry
    | some r => exact (writeEntry_extends out entry).trans (ih _ _)

/-- Every expert that is written gets an extent behind those before it. -/
theorem writeEntries_spec (entries : Entries) {out out' : Bytes} {new new' : List NewRecord}
    {xs : List (Extents.Extent UInt8)} (hlaid : Extents.Laid 4096 out xs)
    (h : writeEntries p m entries out new = (out', some new')) :
    ∃ es : List Expert, new' = new ++ es.map Expert.record ∧
      es.map Expert.key = entries.map Prod.fst ∧
      (∀ e ∈ es, ∃ tensors, (e.key, tensors) ∈ entries ∧ Blobs p m tensors e.gate e.up e.down) ∧
      Extents.Laid 4096 out' (xs ++ es.map Expert.extent) := by
  induction entries generalizing out new xs with
  | nil =>
    obtain ⟨rfl, hnew⟩ := Prod.mk.inj h
    exact ⟨[], by rw [List.map_nil, List.append_nil, Option.some.inj hnew], rfl,
      fun e he => absurd he List.not_mem_nil, by rwa [List.map_nil, List.append_nil]⟩
  | cons entry rest ih =>
    rw [writeEntries] at h
    cases writeEntry_spec (p := p) (m := m) out entry with
    | inr hnone =>
      rw [hnone.1] at h
      cases h
    | inl hsome =>
      obtain ⟨gate, up, down, hblobs, hwrite⟩ := hsome
      rw [hwrite] at h
      dsimp only at h
      have hpadded : Extents.Laid 4096 (pad 0 4096 out) xs := hlaid.append _
      obtain ⟨es, hnew, hkeys, hfrom, hlaid'⟩ :=
        ih (hpadded.concat (pad_aligned out) (pad_aligned _)) h
      refine ⟨⟨entry.1, gate, up, down, _⟩ :: es, hnew.trans (List.append_assoc _ _ _),
        congrArg (entry.1 :: ·) hkeys, fun e he => ?_, ?_⟩
      · cases List.mem_cons.mp he with
        | inl heq =>
          rw [heq]
          exact ⟨entry.2, List.mem_cons_self, hblobs⟩
        | inr hrest =>
          obtain ⟨tensors, hmem, hb⟩ := hfrom e hrest
          exact ⟨tensors, List.mem_cons_of_mem _ hmem, hb⟩
      · rw [List.append_assoc] at hlaid'
        exact hlaid'

/-- Where every tensor can be packed, the run gets through, and writes nothing but the experts. -/
theorem writeEntries_isSome {entries : Entries}
    (h : ∀ entry ∈ entries, ∃ gate up down, Blobs p m entry.2 gate up down) (out : Bytes)
    (new : List NewRecord) : ∃ out' new', writeEntries p m entries out new = (out', some new') := by
  induction entries generalizing out new with
  | nil => exact ⟨out, new, rfl⟩
  | cons entry rest ih =>
    obtain ⟨hfirst, hrest⟩ := List.forall_mem_cons.mp h
    cases writeEntry_spec (p := p) (m := m) out entry with
    | inr hnone => exact absurd hfirst hnone.2
    | inl hsome =>
      obtain ⟨gate, up, down, -, hwrite⟩ := hsome
      rw [writeEntries, hwrite]
      exact ih hrest _ _

/-- In an aligned file the records are all there is. -/
theorem writeEntries_length {entries : Entries} {out out' : Bytes} {new new' : List NewRecord}
    (haligned : 4096 ∣ out.length) (h : writeEntries p m entries out new = (out', some new')) :
    4096 ∣ out'.length ∧
      out'.length + (new.map NewRecord.readBytes).sum =
        out.length + (new'.map NewRecord.readBytes).sum := by
  induction entries generalizing out new with
  | nil =>
    obtain ⟨rfl, hnew⟩ := Prod.mk.inj h
    exact ⟨haligned, by rw [Option.some.inj hnew]⟩
  | cons entry rest ih =>
    rw [writeEntries] at h
    cases writeEntry_spec (p := p) (m := m) out entry with
    | inr hnone =>
      rw [hnone.1] at h
      cases h
    | inl hsome =>
      obtain ⟨gate, up, down, -, hwrite⟩ := hsome
      rw [hwrite] at h
      dsimp only at h
      rw [Extents.pad_of_dvd (by decide) 0 haligned] at h
      obtain ⟨haligned', hsum⟩ := ih (by
        rw [List.length_append]
        exact Nat.dvd_add haligned (pad_aligned _)) h
      refine ⟨haligned', ?_⟩
      rw [List.map_append, List.sum_append, List.length_append, List.map_singleton,
        List.sum_singleton] at hsum
      have hsize : (Expert.record ⟨entry.1, gate, up, down, out.length⟩).readBytes =
          (content gate up down).length := rfl
      omega

/-! ### The index is read back -/

theorem loadExisting_encodeIndex {dtype : UInt32} {dims : Int × Int} {recs : List ExpertRecord}
    {size : Nat} (hcount : recs.length < 2 ^ 32) :
    loadExisting dtype (some (encodeIndex (newHeader dtype dims recs.length size) recs [])) =
      some (some (newHeader dtype dims recs.length size), recs) := by
  have hmagic : (newHeader dtype dims recs.length size).magic = expertMagic := rfl
  have hlength := encodeHeader_length hmagic
  have hnum : (newHeader dtype dims recs.length size).nRecords.toNat = recs.length :=
    (UInt32.toNat_ofNat').trans (Nat.mod_eq_of_lt hcount)
  unfold loadExisting encodeIndex
  rw [List.append_assoc]
  dsimp only
  rw [if_neg (by rw [List.length_append, hlength]; omega), decodeHeader_encodeHeader hmagic,
    if_neg (by
      simp only [not_or, not_not]
      exact ⟨rfl, rfl, rfl, rfl, rfl⟩),
    List.drop_left' hlength, hnum,
    freadMany_flatMap encodeRecord_length decodeRecord_encodeRecord]
  rfl

/-- The packed record of an expert. -/
def Expert.packed (e : Expert) : ExpertRecord where
  layer := UInt32.ofNat e.key.1
  expert := UInt32.ofNat e.key.2
  fileOffset := UInt64.ofNat e.offset
  readBytes := UInt64.ofNat (content e.gate e.up e.down).length
  payloadBytes := UInt64.ofNat (e.gate ++ e.up ++ e.down).length
  gateOff := 0
  gateBytes := UInt64.ofNat e.gate.length
  upOff := UInt64.ofNat e.gate.length
  upBytes := UInt64.ofNat e.up.length
  downOff := UInt64.ofNat (e.gate ++ e.up).length
  downBytes := UInt64.ofNat e.down.length

/-- Whether the numbers of an expert fit, the offset apart. -/
structure Expert.Fits (e : Expert) : Prop where
  layer : e.key.1 < 2 ^ 32
  expert : e.key.2 < 2 ^ 32
  size : (content e.gate e.up e.down).length < 2 ^ 64

theorem length_le_content (gate up down : Bytes) :
    (gate ++ up ++ down).length ≤ (content gate up down).length :=
  (prefix_pad _).length_le

theorem pack_record {e : Expert} {r : ExpertRecord} :
    e.record.pack = some r ↔ e.Fits ∧ e.offset < 2 ^ 64 ∧ r = e.packed := by
  have hle := length_le_content e.gate e.up e.down
  rw [List.length_append, List.length_append] at hle
  unfold NewRecord.pack Expert.record
  dsimp only
  constructor
  · intro h
    split at h
    · rename_i hfits
      cases h
      exact ⟨⟨hfits.1, hfits.2.1, hfits.2.2.2.1⟩, hfits.2.2.1, rfl⟩
    · cases h
  · rintro ⟨⟨hl, he, hs⟩, ho, rfl⟩
    rw [if_pos]
    · rfl
    · rw [List.length_append, List.length_append]
      exact ⟨hl, he, ho, hs, by omega, by decide, by omega, by omega, by omega, by omega, by omega⟩

theorem keyOf_packed {e : Expert} (h : e.Fits) : keyOf e.packed = e.key :=
  Prod.ext ((UInt32.toNat_ofNat').trans (Nat.mod_eq_of_lt h.layer))
    ((UInt32.toNat_ofNat').trans (Nat.mod_eq_of_lt h.expert))

theorem mapM_pack {es : List Expert} {recs : List ExpertRecord} :
    (es.map Expert.record).mapM NewRecord.pack = some recs ↔
      (∀ e ∈ es, e.Fits ∧ e.offset < 2 ^ 64) ∧ recs = es.map Expert.packed := by
  induction es generalizing recs with
  | nil => simp [eq_comm]
  | cons e es ih =>
    rw [List.map_cons, List.mapM_cons, List.forall_mem_cons]
    constructor
    · intro h
      obtain ⟨r, hr, h⟩ := Option.bind_eq_some_iff.mp h
      obtain ⟨rest, hrest, h⟩ := Option.bind_eq_some_iff.mp h
      cases h
      obtain ⟨hfits, hoffset, rfl⟩ := pack_record.mp hr
      obtain ⟨hall, rfl⟩ := ih.mp hrest
      exact ⟨⟨⟨hfits, hoffset⟩, hall⟩, rfl⟩
    · rintro ⟨⟨⟨hfits, hoffset⟩, hall⟩, rfl⟩
      rw [pack_record.mpr ⟨hfits, hoffset, rfl⟩, ih.mpr ⟨hall, rfl⟩]
      rfl

/-! ### The runs -/

/-- A run that ends well. -/
structure DoneRun (p : Packer) (m : ModelDir) (append : Bool) (wanted : Option (List Int))
    (out out' : OutDir) (entries : Entries) (old : Option ExpertIndexHeader)
    (recs : List ExpertRecord) : Prop where
  read : readEntries m.weightMap wanted = some entries
  nonempty : entries ≠ []
  complete : entries.any incomplete = false
  existing : existing p append out = some (old, recs)
  outcome : (newEntries recs entries = [] ∧ out' = out) ∨
    (newEntries recs entries ≠ [] ∧ readable m (newEntries recs entries) ∧
      dimsMatch old (m.dims.getD (dimsOf (newEntries recs entries))) ∧
      writeStore p m append out (m.dims.getD (dimsOf (newEntries recs entries))) recs
        (newEntries recs entries) = .done out')

/-- A tool that needs the configuration has it. -/
def Tool.Configured (tool : Tool) (m : ModelDir) : Prop :=
  match tool with
  | .bf16 => True
  | _ => m.dims.isSome

theorem packQuantised_done {p : Packer} {append : Bool} {wanted : Option (List Int)}
    {out out' : OutDir} (h : packQuantised p m append wanted out = .done out') :
    m.dims.isSome ∧ ∃ entries old recs, DoneRun p m append wanted out out' entries old recs := by
  unfold packQuantised at h
  split at h
  · cases h
  rename_i entries hread
  split at h
  · cases h
  rename_i hentries
  rw [not_or, Bool.not_eq_true] at hentries
  split at h
  · cases h
  rename_i dims hdims
  split at h
  · cases h
  rename_i old recs hexisting
  split at h
  · cases h
  rename_i hmatch
  dsimp only at h
  refine ⟨by rw [hdims]; rfl, entries, old, recs, hread, hentries.1, hentries.2, hexisting, ?_⟩
  rw [hdims, Option.getD_some]
  split at h
  · rename_i hnone
    cases h
    exact Or.inl ⟨hnone, rfl⟩
  rename_i hnew
  split at h
  · cases h
  rename_i hreadable
  exact Or.inr ⟨hnew, not_not.mp hreadable, not_not.mp hmatch, h⟩

theorem pack_done (tool : Tool) {append : Bool} {wanted : Option (List Int)} {out out' : OutDir}
    (h : tool.pack m append wanted out = .done out') :
    tool.Configured m ∧ ∃ entries old recs,
      DoneRun tool.packer m append wanted out out' entries old recs := by
  cases tool with
  | q8 quantizeRows => exact packQuantised_done h
  | q5 quantizeG128 => exact packQuantised_done h
  | bf16 =>
    refine ⟨trivial, ?_⟩
    have h : packExperts m append wanted out = .done out' := h
    unfold packExperts at h
    split at h
    · cases h
    rename_i entries hread
    split at h
    · cases h
    rename_i hentries
    rw [not_or, Bool.not_eq_true] at hentries
    split at h
    · cases h
    rename_i old recs hexisting
    dsimp only at h
    refine ⟨entries, old, recs, hread, hentries.1, hentries.2, hexisting, ?_⟩
    split at h
    · rename_i hnone
      cases h
      exact Or.inl ⟨hnone, rfl⟩
    rename_i hnew
    split at h
    · cases h
    rename_i hreadable
    split at h
    · rename_i hmatch
      exact Or.inr ⟨hnew, not_not.mp hreadable, hmatch, h⟩
    · cases h

/-- And the other way round, with something new. -/
theorem pack_eq_done (tool : Tool) {append : Bool} {wanted : Option (List Int)} {out out' : OutDir}
    {entries : Entries} {old : Option ExpertIndexHeader} {recs : List ExpertRecord}
    (hconf : tool.Configured m) (h : DoneRun tool.packer m append wanted out out' entries old recs)
    (hnew : newEntries recs entries ≠ []) : tool.pack m append wanted out = .done out' := by
  obtain ⟨-, hreadable, hmatch, hwrite⟩ := h.outcome.resolve_left fun hnone => hnew hnone.1
  have hentries : ¬ (entries = [] ∨ entries.any incomplete) := by
    rw [not_or, Bool.not_eq_true]
    exact ⟨h.nonempty, h.complete⟩
  have hquantised (p : Packer) (hp : tool.packer = p) (hdims : m.dims.isSome) :
      packQuantised p m append wanted out = .done out' := by
    obtain ⟨dims, hdims⟩ := Option.isSome_iff_exists.mp hdims
    have hexisting := h.existing
    rw [hdims, Option.getD_some] at hmatch hwrite
    rw [hp] at hwrite hexisting
    unfold packQuantised
    rw [h.read]
    dsimp only
    rw [if_neg hentries, hdims]
    dsimp only
    rw [hexisting]
    dsimp only
    rw [if_neg (not_not.mpr hmatch), if_neg hnew, if_neg (not_not.mpr hreadable)]
    exact hwrite
  cases tool with
  | q8 quantizeRows => exact hquantised _ rfl hconf
  | q5 quantizeG128 => exact hquantised _ rfl hconf
  | bf16 =>
    have hexisting := h.existing
    rw [show Tool.bf16.packer = packerBf16 from rfl] at hwrite hexisting
    show packExperts m append wanted out = _
    unfold packExperts
    rw [h.read]
    dsimp only
    rw [if_neg hentries, hexisting]
    dsimp only
    rw [if_neg hnew, if_neg (not_not.mpr hreadable), if_pos hmatch]
    exact hwrite

/-- A run in append mode only adds to the data file, and leaves the index to its end. -/
structure Appends (out : OutDir) (outcome : Outcome) : Prop where
  written : outcome.written = out.bin ∨
    ∃ bin, outcome.written = some bin ∧ out.bin.getD [] <+: bin
  idx : ∀ out', outcome = .exits out' → out'.idx = out.idx

theorem appends_exits (out : OutDir) : Appends out (.exits out) :=
  ⟨Or.inl rfl, fun _ h => by cases h; rfl⟩

theorem writeStore_appends (out : OutDir) (dims : Int × Int) (recs : List ExpertRecord)
    (entries : Entries) : Appends out (writeStore p m true out dims recs entries) := by
  have hprefix := writeEntries_prefix (p := p) (m := m) (sortEntries entries) (out.bin.getD []) []
  unfold writeStore
  dsimp only
  rw [if_pos rfl]
  split
  · exact ⟨Or.inr ⟨_, rfl, hprefix⟩, fun _ h => by cases h; rfl⟩
  · unfold writeIndex
    split
    · exact ⟨Or.inr ⟨_, rfl, hprefix⟩, nofun⟩
    · dsimp only
      split
      · exact ⟨Or.inr ⟨_, rfl, hprefix⟩, nofun⟩
      · exact ⟨Or.inr ⟨_, rfl, hprefix⟩, nofun⟩

theorem pack_appends (tool : Tool) (wanted : Option (List Int)) (out : OutDir) :
    Appends out (tool.pack m true wanted out) := by
  have hexits := appends_exits out
  have hdone : Appends out (.done out) := ⟨Or.inl rfl, nofun⟩
  have hquantised (p : Packer) : Appends out (packQuantised p m true wanted out) := by
    unfold packQuantised
    repeat' first | split | dsimp only
    all_goals first | exact hexits | exact hdone | exact writeStore_appends ..
  cases tool with
  | q8 quantizeRows => exact hquantised _
  | q5 quantizeG128 => exact hquantised _
  | bf16 =>
    show Appends out (packExperts m true wanted out)
    unfold packExperts
    repeat' first | split | dsimp only
    all_goals first | exact hexits | exact hdone | exact writeStore_appends ..

/-! ### The invariant -/

/-- Whether the layers of some run take a layer. -/
def covered (ws : List (Option (List Int))) (key : Nat × Nat) : Prop :=
  ∃ wanted ∈ ws, isWanted wanted key.1

/-- The experts of the runs of `ws` that ended well, in the data file. -/
structure Content (p : Packer) (m : ModelDir) (ws : List (Option (List Int))) (entries : Entries)
    (es : List Expert) (bin : Bytes) : Prop where
  read : readEntries m.weightMap none = some entries
  fits : ∀ e ∈ es, e.Fits ∧ e.offset < 2 ^ 64
  laid : Extents.Laid 4096 bin (es.map Expert.extent)
  nodup : (es.map Expert.key).Nodup
  keys : ∀ key, key ∈ es.map Expert.key ↔ key ∈ entries.map Prod.fst ∧ covered ws key
  source : ∀ e ∈ es, ∃ tensors, (e.key, tensors) ∈ entries ∧
    Blobs p m tensors e.gate e.up e.down ∧ ∀ part ∈ tensors, (m.shard part.2.2).isSome
  ids : m.dims = none → ∀ e ∈ es, e.key.1 + 1 < 2 ^ 32 ∧ e.key.2 + 1 < 2 ^ 32

/-- And the index over them. -/
structure Store (p : Packer) (m : ModelDir) (ws : List (Option (List Int))) (out : OutDir)
    (entries : Entries) (es : List Expert) (bin : Bytes) (dims : Int × Int) (size : Nat) :
    Prop extends Content p m ws entries es bin where
  data : out.bin = some bin
  index : out.idx = some (encodeIndex (newHeader p.dtype dims es.length size)
    (es.map Expert.packed) [])
  header : headerFits dims es.length size
  total : (es.map fun e => (content e.gate e.up e.down).length).sum ≤ size
  configured : ∀ d, m.dims = some d → dims = d
  nonempty : es ≠ []

/-- Nothing is there before the first run that ends well. -/
def Holds (p : Packer) (m : ModelDir) (ws : List (Option (List Int))) (out : OutDir) : Prop :=
  (ws = [] ∧ out.idx = none) ∨
    ∃ entries es bin dims size, Store p m ws out entries es bin dims size

theorem Store.loadExisting {ws : List (Option (List Int))} {out : OutDir} {entries : Entries}
    {es : List Expert} {bin : Bytes} {dims : Int × Int} {size : Nat}
    (h : Store p m ws out entries es bin dims size) :
    loadExisting p.dtype out.idx =
      some (some (newHeader p.dtype dims es.length size), es.map Expert.packed) := by
  have hlen : (es.map Expert.packed).length = es.length := List.length_map _
  rw [h.index, ← hlen]
  exact loadExisting_encodeIndex (hlen ▸ h.header.2.2.2.2.1)

theorem Store.grow {ws : List (Option (List Int))} {out out' : OutDir} {entries : Entries}
    {es : List Expert} {bin more : Bytes} {dims : Int × Int} {size : Nat}
    (h : Store p m ws out entries es bin dims size) (hidx : out'.idx = out.idx)
    (hbin : out'.bin = some (bin ++ more)) :
    Store p m ws out' entries es (bin ++ more) dims size :=
  { h with data := hbin, index := hidx.trans h.index, laid := h.laid.append more }

/-- A run that does not end well. -/
theorem Holds.grow {ws : List (Option (List Int))} {out out' : OutDir} (h : Holds p m ws out)
    (hidx : out'.idx = out.idx)
    (hbin : out'.bin = out.bin ∨ ∃ bin, out'.bin = some bin ∧ out.bin.getD [] <+: bin) :
    Holds p m ws out' := by
  cases h with
  | inl hnone => exact Or.inl ⟨hnone.1, hidx.trans hnone.2⟩
  | inr hsome =>
    obtain ⟨entries, es, bin, dims, size, hstore⟩ := hsome
    cases hbin with
    | inl hsame =>
      have hbin : out'.bin = some (bin ++ []) := by rw [hsame, hstore.data, List.append_nil]
      exact Or.inr ⟨entries, es, _, dims, size, hstore.grow hidx hbin⟩
    | inr hmore =>
      obtain ⟨bin', hbin', hprefix⟩ := hmore
      rw [hstore.data, Option.getD_some] at hprefix
      obtain ⟨more, rfl⟩ := hprefix
      exact Or.inr ⟨entries, es, _, dims, size, hstore.grow hidx hbin'⟩

theorem mem_newEntries {recs : List ExpertRecord} {entries : Entries}
    {entry : (Nat × Nat) × List (Part × (Str × Str))} :
    entry ∈ newEntries recs entries ↔ entry ∈ entries ∧ entry.1 ∉ recs.map keyOf := by
  unfold newEntries
  rw [List.mem_filter, decide_eq_true_eq]

theorem mem_sortEntries {entries : Entries} {entry : (Nat × Nat) × List (Part × (Str × Str))} :
    entry ∈ sortEntries entries ↔ entry ∈ entries := List.mem_mergeSort

theorem sortEntries_keys (entries : Entries) :
    ((sortEntries entries).map Prod.fst).Perm (entries.map Prod.fst) :=
  (List.mergeSort_perm _ _).map _

theorem le_foldl_max (l : List Nat) (start : Nat) :
    start ≤ l.foldl max start ∧ ∀ n ∈ l, n ≤ l.foldl max start := by
  induction l generalizing start with
  | nil => exact ⟨le_refl _, fun n hn => absurd hn List.not_mem_nil⟩
  | cons first rest ih =>
    obtain ⟨hstart, hrest⟩ := ih (max start first)
    refine ⟨(le_max_left _ _).trans hstart, List.forall_mem_cons.mpr ⟨?_, hrest⟩⟩
    exact (le_max_right _ _).trans hstart

/-- What `dimsOf` gives for an entry. -/
theorem lt_dimsOf {entries : Entries} {entry : (Nat × Nat) × List (Part × (Str × Str))}
    (h : entry ∈ entries) :
    (entry.1.1 : Int) + 1 ≤ (dimsOf entries).1 ∧ (entry.1.2 : Int) + 1 ≤ (dimsOf entries).2 := by
  have hmax (f : Nat × Nat → Nat) :
      f entry.1 ≤ (entries.map fun entry => f entry.1).foldl max 0 := by
    exact (le_foldl_max _ 0).2 _ (List.mem_map.mpr ⟨entry, h, rfl⟩)
  have h₁ := hmax Prod.fst
  have h₂ := hmax Prod.snd
  unfold dimsOf
  constructor
  · dsimp only
    omega
  · dsimp only
    omega

/-- What a run finds. -/
theorem Holds.existing {ws : List (Option (List Int))} {out : OutDir} {entries : Entries}
    {old : Option ExpertIndexHeader} {recs : List ExpertRecord} (h : Holds p m ws out)
    (hread : readEntries m.weightMap none = some entries)
    (hold : loadExisting p.dtype out.idx = some (old, recs)) :
    ∃ es, recs = es.map Expert.packed ∧ Content p m ws entries es (out.bin.getD []) ∧
      (es ≠ [] → ∃ bin dims size, Store p m ws out entries es bin dims size) := by
  cases h with
  | inl hnone =>
    rw [hnone.2] at hold
    cases hold
    refine ⟨[], rfl, ⟨hread, fun e he => absurd he List.not_mem_nil, .nil, List.nodup_nil,
      fun key => ?_, fun e he => absurd he List.not_mem_nil,
      fun _ e he => absurd he List.not_mem_nil⟩, fun hne => absurd rfl hne⟩
    rw [hnone.1]
    simp [covered]
  | inr hsome =>
    obtain ⟨entries', es, bin, dims, size, hstore⟩ := hsome
    cases hread.symm.trans hstore.read
    rw [hstore.loadExisting] at hold
    cases hold
    refine ⟨es, rfl, ?_, fun _ => ⟨bin, dims, size, hstore⟩⟩
    rw [hstore.data]
    exact hstore.toContent

theorem keys_packed {es : List Expert} (h : ∀ e ∈ es, e.Fits ∧ e.offset < 2 ^ 64) :
    (es.map Expert.packed).map keyOf = es.map Expert.key := by
  rw [List.map_map]
  exact List.map_congr_left fun e he => keyOf_packed (h e he).1

theorem mem_keys_packed {es : List Expert} (h : ∀ e ∈ es, e.Fits ∧ e.offset < 2 ^ 64)
    (key : Nat × Nat) : key ∈ (es.map Expert.packed).map keyOf ↔ key ∈ es.map Expert.key := by
  rw [keys_packed h]

/-- The new experts of a run. -/
theorem Content.add {ws : List (Option (List Int))} {wanted : Option (List Int)}
    {entries new : Entries} {es : List Expert} {start bin : Bytes} {written : List NewRecord}
    {recs : List ExpertRecord} (h : Content p m ws entries es start)
    (hnew : new = newEntries (es.map Expert.packed)
      (entries.filter fun entry => isWanted wanted entry.1.1))
    (hreadable : readable m new)
    (hwrite : writeEntries p m (sortEntries new) start [] = (bin, some written))
    (hpack : written.mapM NewRecord.pack = some recs)
    (hids : m.dims = none → ∀ entry ∈ new, entry.1.1 + 1 < 2 ^ 32 ∧ entry.1.2 + 1 < 2 ^ 32) :
    ∃ added, recs = added.map Expert.packed ∧
      added.map Expert.key = (sortEntries new).map Prod.fst ∧
      Content p m (ws ++ [wanted]) entries (es ++ added) bin := by
  obtain ⟨added, hrecords, hkeys, hfrom, hlaid⟩ := writeEntries_spec (sortEntries new) h.laid hwrite
  rw [List.nil_append] at hrecords
  rw [hrecords] at hpack
  obtain ⟨hfits, hrecs⟩ := mapM_pack.mp hpack
  have hmem (entry : (Nat × Nat) × List (Part × (Str × Str))) : entry ∈ sortEntries new ↔
      (entry ∈ entries ∧ isWanted wanted entry.1.1) ∧ entry.1 ∉ es.map Expert.key := by
    rw [mem_sortEntries, hnew, mem_newEntries, List.mem_filter, mem_keys_packed h.fits]
  have haddedKey (key : Nat × Nat) : key ∈ added.map Expert.key ↔
      (key ∈ entries.map Prod.fst ∧ isWanted wanted key.1) ∧ key ∉ es.map Expert.key := by
    rw [hkeys, List.mem_map]
    constructor
    · rintro ⟨entry, hentry, rfl⟩
      obtain ⟨⟨hin, hw⟩, hnot⟩ := (hmem entry).mp hentry
      exact ⟨⟨List.mem_map_of_mem hin, hw⟩, hnot⟩
    · rintro ⟨⟨hin, hw⟩, hnot⟩
      obtain ⟨entry, hentry, rfl⟩ := List.mem_map.mp hin
      exact ⟨entry, (hmem entry).mpr ⟨⟨hentry, hw⟩, hnot⟩, rfl⟩
  have hentriesNodup := readEntries_nodup h.read
  have haddedNodup : (added.map Expert.key).Nodup := by
    rw [hkeys]
    refine (sortEntries_keys new).nodup_iff.mpr ?_
    rw [hnew]
    exact hentriesNodup.sublist
      ((List.filter_sublist.trans List.filter_sublist).map Prod.fst)
  refine ⟨added, hrecs, hkeys, h.read, ?_, ?_, ?_, fun key => ?_, ?_, ?_⟩
  · exact List.forall_mem_append.mpr ⟨h.fits, hfits⟩
  · rw [List.map_append]
    exact hlaid
  · rw [List.map_append]
    refine List.Nodup.append h.nodup haddedNodup fun key hold hadded => ?_
    exact ((haddedKey key).mp hadded).2 hold
  · have hcovered : covered (ws ++ [wanted]) key ↔ covered ws key ∨ isWanted wanted key.1 := by
      simp [covered, List.mem_append, or_and_right, exists_or]
    rw [List.map_append, List.mem_append, haddedKey, h.keys, hcovered]
    tauto
  · refine List.forall_mem_append.mpr ⟨h.source, fun e he => ?_⟩
    obtain ⟨tensors, hin, hblobs⟩ := hfrom e he
    refine ⟨tensors, ((hmem _).mp hin).1.1, hblobs, fun part hpart => ?_⟩
    have hall := List.all_eq_true.mp hreadable _ (mem_sortEntries.mp hin)
    exact List.all_eq_true.mp hall part hpart
  · intro hdims
    refine List.forall_mem_append.mpr ⟨h.ids hdims, fun e he => ?_⟩
    obtain ⟨tensors, hin, -⟩ := hfrom e he
    exact hids hdims _ (mem_sortEntries.mp hin)

/-- A run that ends well. -/
theorem Holds.done (tool : Tool) {ws : List (Option (List Int))} {wanted : Option (List Int)}
    {out out' : OutDir} (h : Holds tool.packer m ws out)
    (hrun : tool.pack m true wanted out = .done out') :
    Holds tool.packer m (ws ++ [wanted]) out' := by
  obtain ⟨-, entries', old, recs, hdone⟩ := pack_done tool hrun
  have hread := hdone.read
  rw [readEntries_filter] at hread
  obtain ⟨entries, hall, rfl⟩ := Option.map_eq_some_iff.mp hread
  obtain ⟨es, rfl, hcontent, hstore⟩ := h.existing hall hdone.existing
  rcases hdone.outcome with ⟨hnone, rfl⟩ | ⟨hnew, hreadable, -, hwrite⟩
  · -- nothing new: what the run asks for is there already
    have hthere : ∀ entry ∈ entries, isWanted wanted entry.1.1 → entry.1 ∈ es.map Expert.key := by
      intro entry hin hw
      by_contra hnot
      have hentry : entry ∈ entries.filter fun entry => isWanted wanted entry.1.1 :=
        List.mem_filter.mpr ⟨hin, hw⟩
      have hmem := mem_newEntries.mpr ⟨hentry, mt (mem_keys_packed hcontent.fits _).mp hnot⟩
      rw [hnone] at hmem
      cases hmem
    have hne : es ≠ [] := by
      obtain ⟨entry, hentry⟩ := List.exists_mem_of_ne_nil _ hdone.nonempty
      obtain ⟨hin, hw⟩ := List.mem_filter.mp hentry
      intro hnil
      have := hthere entry hin hw
      rw [hnil] at this
      cases this
    obtain ⟨bin, dims, size, hs⟩ := hstore hne
    refine Or.inr ⟨entries, es, bin, dims, size, { hs with keys := fun key => ?_ }⟩
    rw [hs.keys]
    refine and_congr_right fun hin => ⟨?_, ?_⟩
    · rintro ⟨w, hw, hwanted⟩
      exact ⟨w, List.mem_append_left _ hw, hwanted⟩
    · rintro ⟨w, hw, hwanted⟩
      cases List.mem_append.mp hw with
      | inl hold => exact ⟨w, hold, hwanted⟩
      | inr hlast =>
        obtain ⟨entry, hentry, rfl⟩ := List.mem_map.mp hin
        rw [List.mem_singleton.mp hlast] at hwanted
        exact ((hs.keys _).mp (hthere entry hentry hwanted)).2
  · unfold writeStore at hwrite
    dsimp only at hwrite
    rw [if_pos rfl] at hwrite
    split at hwrite
    · cases hwrite
    rename_i written hwritten
    unfold writeIndex at hwrite
    split at hwrite
    · cases hwrite
    rename_i packed hpacked
    dsimp only at hwrite
    split at hwrite
    · rename_i hheader
      cases hwrite
      obtain ⟨added, rfl, hkeys, hcontent'⟩ := hcontent.add rfl hreadable
        (Prod.ext rfl hwritten) hpacked fun hdims entry hentry => by
          obtain ⟨h₁, h₂⟩ := lt_dimsOf hentry
          rw [hdims, Option.getD_none] at hheader
          have hhi₁ := hheader.2.1
          have hhi₂ := hheader.2.2.2.1
          omega
      have hlen : (es.map Expert.packed ++ added.map Expert.packed).length =
          (es ++ added).length := by
        rw [← List.map_append, List.length_map]
      rw [hlen] at hheader
      refine Or.inr ⟨entries, es ++ added, _, _, _, hcontent', rfl, ?_, hheader, ?_, ?_, ?_⟩
      · rw [hlen, List.map_append]
      · have htotal := hcontent'.laid.total
        rw [List.map_map] at htotal
        exact htotal
      · intro d hd
        rw [hd, Option.getD_some]
      · intro hnil
        rw [(List.append_eq_nil_iff.mp hnil).2] at hkeys
        refine hnew (List.eq_nil_iff_forall_not_mem.mpr fun entry hentry => ?_)
        have hin := List.mem_map_of_mem (f := Prod.fst) (mem_sortEntries.mpr hentry)
        rw [← hkeys] at hin
        cases hin
    · cases hwrite

/-- Whatever ends a run, the store keeps to the runs that ended well. -/
theorem Runs.holds {tool : Tool} {start out : OutDir} {ws : List (Option (List Int))}
    (hstart : start.idx = none) (h : Runs tool m start ws out) : Holds tool.packer m ws out := by
  induction h with
  | start => exact Or.inl ⟨rfl, hstart⟩
  | done wanted _ hrun ih => exact ih.done tool hrun
  | @raised ws out out' wanted _ hrun ih =>
    have happ := pack_appends (m := m) tool wanted out
    rw [hrun] at happ
    exact ih.grow (happ.idx out' rfl) happ.written
  | @stopped ws out out' wanted _ hstop ih =>
    cases hstop with
    | early => exact ih
    | writing bin written _ _ hprefix => exact ih.grow rfl (Or.inr ⟨bin, rfl, hprefix⟩)

theorem Runs.configured {tool : Tool} {start out : OutDir} {ws : List (Option (List Int))}
    (h : Runs tool m start ws out) (hne : ws ≠ []) : tool.Configured m := by
  induction h with
  | start => exact absurd rfl hne
  | done wanted _ hrun _ => exact (pack_done tool hrun).1
  | raised _ _ _ ih => exact ih hne
  | stopped _ _ _ ih => exact ih hne

/-! ### One run for all layers -/

/-- The layers of all runs. -/
def unionWanted (ws : List (Option (List Int))) : Option (List Int) :=
  if none ∈ ws then none else some (ws.flatMap fun wanted => wanted.getD [])

theorem isWanted_union (ws : List (Option (List Int))) (key : Nat × Nat) :
    isWanted (unionWanted ws) key.1 ↔ covered ws key := by
  unfold unionWanted covered
  by_cases hnone : none ∈ ws
  · rw [if_pos hnone]
    exact ⟨fun _ => ⟨none, hnone, rfl⟩, fun _ => rfl⟩
  · rw [if_neg hnone]
    unfold isWanted
    dsimp only
    rw [decide_eq_true_eq, List.mem_flatMap]
    refine exists_congr fun wanted => and_congr_right fun hmem => ?_
    cases wanted with
    | none => exact absurd hmem hnone
    | some layers => exact decide_eq_true_iff.symm

theorem Blobs.get {tensors : List (Part × (Str × Str))} {gate up down : Bytes}
    (h : Blobs p m tensors gate up down) (part : Part) : part ∈ tensors.map Prod.fst := by
  have hblob : blob p m tensors part ≠ none := by
    cases part with
    | gateProj => rw [h.gate]; exact Option.some_ne_none _
    | upProj => rw [h.up]; exact Option.some_ne_none _
    | downProj => rw [h.down]; exact Option.some_ne_none _
  by_contra hnot
  refine hblob ?_
  rw [blob, Dict.get_eq_none_iff.mpr hnot]
  rfl

/-- What the parts of an expert are, whatever run wrote them. -/
def partsOf (p : Packer) (m : ModelDir) (entries : Entries) (key : Nat × Nat) :
    Option (Bytes × Bytes × Bytes) :=
  (Dict.get key entries).bind fun tensors =>
    (blob p m tensors .gateProj).bind fun gate => (blob p m tensors .upProj).bind fun up =>
      (blob p m tensors .downProj).map fun down => (gate, up, down)

theorem Blobs.partsOf {entries : Entries} (hnodup : (entries.map Prod.fst).Nodup)
    {key : Nat × Nat} {tensors : List (Part × (Str × Str))} (hmem : (key, tensors) ∈ entries)
    {gate up down : Bytes} (h : Blobs p m tensors gate up down) :
    partsOf p m entries key = some (gate, up, down) := by
  rw [PackExperts.partsOf, Dict.get_eq_some_of_mem hnodup hmem, Option.bind_some, h.gate,
    Option.bind_some, h.up, Option.bind_some, h.down]
  rfl

theorem Content.partsOf {ws : List (Option (List Int))} {entries : Entries} {es : List Expert}
    {bin : Bytes} (h : Content p m ws entries es bin) {e : Expert} (he : e ∈ es) :
    partsOf p m entries e.key = some (e.gate, e.up, e.down) := by
  obtain ⟨tensors, hmem, hblobs, -⟩ := h.source e he
  exact hblobs.partsOf (readEntries_nodup h.read) hmem

/-- The size of an expert, by its key. -/
def sizeOf (p : Packer) (m : ModelDir) (entries : Entries) (key : Nat × Nat) : Nat :=
  ((partsOf p m entries key).map fun b => (content b.1 b.2.1 b.2.2).length).getD 0

theorem foldl_max_lt {l : List Nat} {start b : Nat} (hstart : start < b) (h : ∀ n ∈ l, n < b) :
    l.foldl max start < b := by
  induction l generalizing start with
  | nil => exact hstart
  | cons first rest ih =>
    obtain ⟨hfirst, hrest⟩ := List.forall_mem_cons.mp h
    exact ih (max_lt hstart hfirst) hrest

theorem sizes_eq {entries : Entries} {es : List Expert}
    (h : ∀ e ∈ es, partsOf p m entries e.key = some (e.gate, e.up, e.down)) :
    (es.map fun e => (content e.gate e.up e.down).length) =
      (es.map Expert.key).map (sizeOf p m entries) := by
  rw [List.map_map]
  refine List.map_congr_left fun e he => ?_
  rw [Function.comp_apply, sizeOf, h e he]
  rfl

theorem dimsOf_fits {entries : Entries} {count size : Nat}
    (h : ∀ entry ∈ entries, entry.1.1 + 1 < 2 ^ 32 ∧ entry.1.2 + 1 < 2 ^ 32)
    (hcount : count < 2 ^ 32) (hsize : size < 2 ^ 64) :
    headerFits (dimsOf entries) count size := by
  have hmax (f : Nat × Nat → Nat) (hf : ∀ entry ∈ entries, f entry.1 + 1 < 2 ^ 32) :
      (entries.map fun entry => f entry.1).foldl max 0 < 2 ^ 32 - 1 := by
    refine foldl_max_lt (by decide) fun n hn => ?_
    obtain ⟨entry, hentry, rfl⟩ := List.mem_map.mp hn
    have := hf entry hentry
    omega
  have h₁ := hmax Prod.fst fun entry hentry => (h entry hentry).1
  have h₂ := hmax Prod.snd fun entry hentry => (h entry hentry).2
  unfold headerFits dimsOf
  dsimp only
  omega

/-- The entries that a run for all the layers takes. -/
structure UnionEntries (p : Packer) (m : ModelDir) (ws : List (Option (List Int)))
    (entries new : Entries) (es : List Expert) : Prop where
  nodup : (new.map Prod.fst).Nodup
  ne_nil : new ≠ []
  keys : ∀ key, key ∈ new.map Prod.fst ↔ key ∈ es.map Expert.key
  read : readEntries m.weightMap (unionWanted ws) = some new
  mem : ∀ entry ∈ new, entry ∈ entries
  source : ∀ entry ∈ new, ∃ e ∈ es, e.key = entry.1 ∧ Blobs p m entry.2 e.gate e.up e.down ∧
    ∀ part ∈ entry.2, (m.shard part.2.2).isSome

theorem Store.unionEntries {ws : List (Option (List Int))} {out : OutDir}
    {entries : Entries} {es : List Expert} {bin : Bytes} {dims : Int × Int} {size : Nat}
    (h : Store p m ws out entries es bin dims size) :
    UnionEntries p m ws entries
      (entries.filter fun entry => isWanted (unionWanted ws) entry.1.1) es := by
  have hnodup := readEntries_nodup h.read
  have hkeys (key : Nat × Nat) :
      key ∈ (entries.filter fun entry => isWanted (unionWanted ws) entry.1.1).map Prod.fst ↔
        key ∈ es.map Expert.key := by
    rw [h.keys, ← isWanted_union, List.mem_map, List.mem_map]
    constructor
    · rintro ⟨entry, hentry, rfl⟩
      obtain ⟨hin, hw⟩ := List.mem_filter.mp hentry
      exact ⟨⟨entry, hin, rfl⟩, hw⟩
    · rintro ⟨⟨entry, hin, rfl⟩, hw⟩
      exact ⟨entry, List.mem_filter.mpr ⟨hin, hw⟩, rfl⟩
  refine ⟨hnodup.sublist (List.filter_sublist.map Prod.fst), fun hnil => ?_, hkeys, ?_,
    fun entry hentry => (List.mem_filter.mp hentry).1, fun entry hentry => ?_⟩
  · obtain ⟨e, he⟩ := List.exists_mem_of_ne_nil _ h.nonempty
    have hin := (hkeys e.key).mpr (List.mem_map_of_mem he)
    rw [hnil] at hin
    cases hin
  · rw [readEntries_filter, h.read]
    rfl
  · obtain ⟨e, he, hek⟩ := List.mem_map.mp ((hkeys entry.1).mp (List.mem_map_of_mem hentry))
    obtain ⟨tensors, hmem, hblobs, hshards⟩ := h.source e he
    rw [hek] at hmem
    have hsame : tensors = entry.2 := Option.some.inj
      ((Dict.get_eq_some_of_mem hnodup hmem).symm.trans
        (Dict.get_eq_some_of_mem hnodup (List.mem_filter.mp hentry).1))
    rw [hsame] at hblobs hshards
    exact ⟨e, he, hek, hblobs, hshards⟩

/-- What the single run writes. -/
theorem Store.writeUnion {ws : List (Option (List Int))} {out : OutDir} {entries new : Entries}
    {es : List Expert} {bin : Bytes} {dims : Int × Int} {size : Nat}
    (h : Store p m ws out entries es bin dims size) (hnew : UnionEntries p m ws entries new es) :
    ∃ bin' written, ∃ added : List Expert,
      writeEntries p m (sortEntries new) [] [] = (bin', some written) ∧
      written.mapM NewRecord.pack = some (added.map Expert.packed) ∧ added.length = es.length ∧
      bin'.length ≤ size := by
  obtain ⟨bin', written, hwrite⟩ := writeEntries_isSome (p := p) (m := m) (fun entry hentry => by
    obtain ⟨e, -, -, hblobs, -⟩ := hnew.source entry (mem_sortEntries.mp hentry)
    exact ⟨_, _, _, hblobs⟩) [] []
  obtain ⟨added, hwritten, haddedKeys, hfrom, hlaid⟩ :=
    writeEntries_spec (sortEntries new) .nil hwrite
  rw [List.nil_append] at hwritten hlaid
  have hnodup := readEntries_nodup h.read
  have hparts : ∀ a ∈ added, partsOf p m entries a.key = some (a.gate, a.up, a.down) := by
    intro a ha
    obtain ⟨tensors, hin, hblobs⟩ := hfrom a ha
    exact hblobs.partsOf hnodup (hnew.mem _ (mem_sortEntries.mp hin))
  have hperm : (added.map Expert.key).Perm (es.map Expert.key) := by
    have hsorted := sortEntries_keys new
    rw [← haddedKeys] at hsorted
    exact hsorted.trans ((List.perm_ext_iff_of_nodup hnew.nodup h.nodup).mpr hnew.keys)
  have hlength : bin'.length ≤ size := by
    have hstart : 4096 ∣ ([] : Bytes).length := Nat.dvd_zero 4096
    have hsum := (writeEntries_length hstart hwrite).2
    have hsizes : written.map NewRecord.readBytes =
        added.map fun a => (content a.gate a.up a.down).length := by
      rw [hwritten, List.map_map]
      rfl
    have htotal := h.total
    rw [sizes_eq fun e he => h.toContent.partsOf he,
      ← (hperm.map (sizeOf p m entries)).sum_eq, ← sizes_eq hparts, ← hsizes] at htotal
    rw [List.map_nil, List.sum_nil, List.length_nil, Nat.add_zero, Nat.zero_add] at hsum
    exact hsum ▸ htotal
  refine ⟨bin', written, added, hwrite, ?_, ?_, hlength⟩
  · rw [hwritten]
    refine mapM_pack.mpr ⟨fun a ha => ?_, rfl⟩
    obtain ⟨e, he, hek⟩ := List.mem_map.mp (hperm.mem_iff.mp (List.mem_map_of_mem ha))
    have hsame := (h.toContent.partsOf he).symm.trans (hek ▸ hparts a ha)
    obtain ⟨hg, hud⟩ := Prod.mk.inj (Option.some.inj hsame)
    obtain ⟨hu, hd⟩ := Prod.mk.inj hud
    obtain ⟨⟨hl, hx, hs⟩, -⟩ := h.fits e he
    rw [hek] at hl hx
    rw [hg, hu, hd] at hs
    have hin := hlaid.inside _ (List.mem_map_of_mem ha)
    have hlimit := h.header.2.2.2.2.2
    have hoff : a.offset ≤ a.extent.stop := Nat.le_add_right _ _
    exact ⟨⟨hl, hx, hs⟩, by omega⟩
  · have := hperm.length_eq
    rwa [List.length_map, List.length_map] at this

/-- A single run packs what all the runs packed. -/
theorem Store.single (tool : Tool) {ws : List (Option (List Int))} {out : OutDir}
    {entries : Entries} {es : List Expert} {bin : Bytes} {dims : Int × Int} {size : Nat}
    (h : Store tool.packer m ws out entries es bin dims size) (hconf : tool.Configured m) :
    ∃ one, ∀ append, tool.pack m append (unionWanted ws) ⟨none, none⟩ = .done one := by
  generalize hnew : entries.filter (fun entry => isWanted (unionWanted ws) entry.1.1) = new
  have hunion : UnionEntries tool.packer m ws entries new es := hnew ▸ h.unionEntries
  obtain ⟨bin', written, added, hwrite, hpack, hcount, hlength⟩ := h.writeUnion hunion
  have hheader : headerFits (m.dims.getD (dimsOf new)) added.length bin'.length := by
    have hold := h.header
    have hrest : added.length < 2 ^ 32 ∧ bin'.length < 2 ^ 64 :=
      ⟨hcount ▸ hold.2.2.2.2.1, Nat.lt_of_le_of_lt hlength hold.2.2.2.2.2⟩
    cases hdims : m.dims with
    | some d =>
      rw [Option.getD_some, ← h.configured d hdims]
      exact ⟨hold.1, hold.2.1, hold.2.2.1, hold.2.2.2.1, hrest⟩
    | none =>
      rw [Option.getD_none]
      refine dimsOf_fits (fun entry hentry => ?_) hrest.1 hrest.2
      obtain ⟨e, he, hek, -, -⟩ := hunion.source entry hentry
      exact hek ▸ h.ids hdims e he
  have hall : newEntries [] new = new := List.filter_eq_self.mpr fun entry _ => rfl
  refine ⟨⟨some bin', some (encodeIndex
    (newHeader tool.packer.dtype (m.dims.getD (dimsOf new)) added.length bin'.length)
    (added.map Expert.packed) [])⟩, fun append => ?_⟩
  have hdone : DoneRun tool.packer m append (unionWanted ws) ⟨none, none⟩
      ⟨some bin', some (encodeIndex
        (newHeader tool.packer.dtype (m.dims.getD (dimsOf new)) added.length bin'.length)
        (added.map Expert.packed) [])⟩ new none [] := by
    refine ⟨hunion.read, hunion.ne_nil, ?_, ?_, Or.inr ⟨hall.symm ▸ hunion.ne_nil, ?_, rfl, ?_⟩⟩
    · rw [List.any_eq_false]
      intro entry hentry
      obtain ⟨e, -, -, hblobs, -⟩ := hunion.source entry hentry
      unfold incomplete
      simp [hblobs.get]
    · cases append <;> rfl
    · rw [hall]
      refine List.all_eq_true.mpr fun entry hentry => List.all_eq_true.mpr fun part hpart => ?_
      obtain ⟨e, -, -, -, hshards⟩ := hunion.source entry hentry
      exact hshards part hpart
    · have hstart : (if append then (⟨none, none⟩ : OutDir).bin.getD [] else []) = [] := by
        cases append <;> rfl
      have hlen : ([] ++ added.map Expert.packed).length = added.length := by
        rw [List.nil_append, List.length_map]
      unfold writeStore
      rw [hall, hstart, hwrite]
      dsimp only
      unfold writeIndex
      rw [hpack]
      dsimp only
      rw [hlen, if_pos hheader, List.nil_append]
  exact pack_eq_done tool hconf hdone (hall.symm ▸ hunion.ne_nil)

/-! ### What a store holds -/

/-- The bytes of one part of a record. -/
def partBytes (bin : Bytes) (r : ExpertRecord) (off n : UInt64) : Bytes :=
  Extents.slice bin (r.fileOffset.toNat + off.toNat) n.toNat

/-- The record of an expert without its offset, and the bytes of its parts. -/
def contents (dtype : UInt32) (out : OutDir) (key : Nat × Nat) :
    Option (ExpertRecord × Bytes × Bytes × Bytes) :=
  (loadExisting dtype out.idx).bind fun index =>
    (index.2.find? fun r => keyOf r = key).map fun r =>
      let part := partBytes (out.bin.getD []) r
      ({ r with fileOffset := 0 }, part r.gateOff r.gateBytes, part r.upOff r.upBytes,
        part r.downOff r.downBytes)

/-- The records of an index lie in the data file, aligned and one behind another, and no two are
of the same expert. -/
structure SoundStore (bin : Bytes) (recs : List ExpertRecord) : Prop where
  nodup : (recs.map keyOf).Nodup
  inside : ∀ r ∈ recs, r.fileOffset.toNat + r.readBytes.toNat ≤ bin.length
  aligned : ∀ r ∈ recs, 4096 ∣ r.fileOffset.toNat ∧ 4096 ∣ r.fileOffset.toNat + r.readBytes.toNat
  disjoint : recs.Pairwise fun r r' =>
    r.fileOffset.toNat + r.readBytes.toNat ≤ r'.fileOffset.toNat

theorem Expert.extent_packed {e : Expert} (h : e.Fits ∧ e.offset < 2 ^ 64) :
    e.packed.fileOffset.toNat = e.extent.offset ∧
      e.packed.fileOffset.toNat + e.packed.readBytes.toNat = e.extent.stop := by
  have hoff : e.packed.fileOffset.toNat = e.offset :=
    (UInt64.toNat_ofNat').trans (Nat.mod_eq_of_lt h.2)
  have hsize : e.packed.readBytes.toNat = (content e.gate e.up e.down).length :=
    (UInt64.toNat_ofNat').trans (Nat.mod_eq_of_lt h.1.size)
  exact ⟨hoff, by rw [hoff, hsize]; rfl⟩

theorem Content.sound {ws : List (Option (List Int))} {entries : Entries} {es : List Expert}
    {bin : Bytes} (h : Content p m ws entries es bin) :
    SoundStore bin (es.map Expert.packed) where
  nodup := by
    rw [keys_packed h.fits]
    exact h.nodup
  inside := List.forall_mem_map.mpr fun e he => by
    rw [(Expert.extent_packed (h.fits e he)).2]
    exact h.laid.inside _ (List.mem_map_of_mem he)
  aligned := List.forall_mem_map.mpr fun e he => by
    obtain ⟨hoff, hstop⟩ := Expert.extent_packed (h.fits e he)
    obtain ⟨h₁, h₂⟩ := h.laid.aligned _ (List.mem_map_of_mem he)
    rw [hstop, hoff]
    exact ⟨h₁, Nat.dvd_add h₁ h₂⟩
  disjoint := by
    refine List.pairwise_map.mpr ((List.pairwise_map.mp h.laid.ordered).imp_of_mem ?_)
    intro e e' he he' hle
    rwa [(Expert.extent_packed (h.fits e he)).2, (Expert.extent_packed (h.fits e' he')).1]

/-- A part of an expert is read back. -/
theorem slice_part {bin : Bytes} {e : Expert}
    (hstored : Extents.slice bin e.offset (content e.gate e.up e.down).length =
      content e.gate e.up e.down) (before part after : Bytes)
    (hparts : e.gate ++ e.up ++ e.down = before ++ part ++ after) :
    Extents.slice bin (e.offset + before.length) part.length = part := by
  have hle := length_le_content e.gate e.up e.down
  rw [hparts] at hle
  rw [List.length_append, List.length_append] at hle
  rw [← Extents.slice_slice (n := (content e.gate e.up e.down).length) (by omega), hstored, content,
    hparts, pad, List.append_assoc, List.append_assoc]
  rw [Extents.slice, List.drop_left, List.take_left]

theorem find_packed {es : List Expert} (hfits : ∀ e ∈ es, e.Fits ∧ e.offset < 2 ^ 64)
    (hnodup : (es.map Expert.key).Nodup) {e : Expert} (he : e ∈ es) :
    (es.map Expert.packed).find? (fun r => keyOf r = e.key) = some e.packed := by
  induction es with
  | nil => cases he
  | cons first rest ih =>
    obtain ⟨hnew, hnodup⟩ := List.nodup_cons.mp hnodup
    obtain ⟨hfirst, hrest⟩ := List.forall_mem_cons.mp hfits
    rw [List.map_cons, List.find?_cons, keyOf_packed hfirst.1]
    cases List.mem_cons.mp he with
    | inl heq => rw [heq, decide_eq_true rfl]
    | inr hin =>
      have hne : first.key ≠ e.key := fun heq => hnew (heq ▸ List.mem_map_of_mem hin)
      rw [decide_eq_false hne]
      exact ih hrest hnodup hin

/-- The three parts of an expert, as the index has them. -/
theorem packed_slices {bin : Bytes} {e : Expert} (hfits : e.Fits ∧ e.offset < 2 ^ 64)
    (hstored : Extents.slice bin e.offset (content e.gate e.up e.down).length =
      content e.gate e.up e.down) :
    partBytes bin e.packed e.packed.gateOff e.packed.gateBytes = e.gate ∧
      partBytes bin e.packed e.packed.upOff e.packed.upBytes = e.up ∧
      partBytes bin e.packed e.packed.downOff e.packed.downBytes = e.down := by
  have hle := length_le_content e.gate e.up e.down
  rw [List.length_append, List.length_append] at hle
  have hsize := hfits.1.size
  have hnat (n : Nat) (hn : n < 2 ^ 64) : (UInt64.ofNat n).toNat = n :=
    (UInt64.toNat_ofNat').trans (Nat.mod_eq_of_lt hn)
  have hup : (e.gate ++ e.up).length < 2 ^ 64 := by
    rw [List.length_append]
    omega
  unfold partBytes Expert.packed
  dsimp only
  rw [hnat _ hfits.2, hnat _ (by omega), hnat _ (by omega), hnat _ hup, hnat _ (by omega)]
  exact ⟨slice_part hstored [] e.gate (e.up ++ e.down) (by rw [List.nil_append, List.append_assoc]),
    slice_part hstored e.gate e.up e.down rfl,
    slice_part hstored (e.gate ++ e.up) e.down [] (by rw [List.append_nil])⟩

theorem Store.contents {ws : List (Option (List Int))} {out : OutDir} {entries : Entries}
    {es : List Expert} {bin : Bytes} {dims : Int × Int} {size : Nat}
    (h : Store p m ws out entries es bin dims size) (key : Nat × Nat) :
    contents p.dtype out key =
      if key ∈ es.map Expert.key then
        (partsOf p m entries key).map fun b =>
          (Expert.packed ⟨key, b.1, b.2.1, b.2.2, 0⟩, b)
      else none := by
  rw [PackExperts.contents, h.loadExisting, Option.bind_some, h.data, Option.getD_some]
  dsimp only
  by_cases hin : key ∈ es.map Expert.key
  · rw [if_pos hin]
    obtain ⟨e, he, rfl⟩ := List.mem_map.mp hin
    rw [find_packed h.fits h.nodup he, h.toContent.partsOf he, Option.map_some, Option.map_some]
    obtain ⟨hg, hu, hd⟩ :=
      packed_slices (h.fits e he) (h.laid.stored _ (List.mem_map_of_mem he))
    rw [hg, hu, hd]
    rfl
  · rw [if_neg hin, List.find?_eq_none.mpr, Option.map_none]
    intro r hr hkey
    obtain ⟨e, he, rfl⟩ := List.mem_map.mp hr
    rw [decide_eq_true_eq, keyOf_packed (h.fits e he).1] at hkey
    exact hin (hkey ▸ List.mem_map_of_mem he)

/-- Packs appended in any order, with repeats and with runs that did not end well in between,
give a sound store with the contents of a single run. -/
theorem append_any_order (tool : Tool) (m : ModelDir) {start out : OutDir}
    {ws : List (Option (List Int))} (hstart : start.idx = none) (h : Runs tool m start ws out)
    (hne : ws ≠ []) :
    ∃ bin hdr recs, out.bin = some bin ∧
      loadExisting tool.packer.dtype out.idx = some (some hdr, recs) ∧ SoundStore bin recs ∧
      ∃ one, (∀ append, tool.pack m append (unionWanted ws) ⟨none, none⟩ = .done one) ∧
        ∀ key, contents tool.packer.dtype out key = contents tool.packer.dtype one key := by
  have hconf := h.configured hne
  obtain ⟨entries, es, bin, dims, size, hstore⟩ :=
    (h.holds hstart).resolve_left fun hnone => hne hnone.1
  obtain ⟨one, hone⟩ := hstore.single tool hconf
  refine ⟨bin, _, _, hstore.data, hstore.loadExisting, hstore.toContent.sound, one, hone,
    fun key => ?_⟩
  have hempty : Holds tool.packer m [] ⟨none, none⟩ := Or.inl ⟨rfl, rfl⟩
  obtain ⟨entries', es', bin', dims', size', hsingle⟩ :=
    (hempty.done tool (hone true)).resolve_left fun hnone => List.cons_ne_nil _ _ hnone.1
  obtain rfl := Option.some.inj (hstore.read.symm.trans hsingle.read)
  rw [hstore.contents, hsingle.contents]
  refine if_congr ?_ rfl rfl
  rw [hstore.keys, hsingle.keys, ← isWanted_union]
  simp [covered]

end

/-- A model of one small expert. -/
def oneExpert : ModelDir where
  weightMap :=
    [(text "language_model.model.layers.1.mlp.experts.0.gate_proj.weight", text "s"),
      (text "language_model.model.layers.1.mlp.experts.0.up_proj.weight", text "s"),
      (text "language_model.model.layers.1.mlp.experts.0.down_proj.weight", text "s")]
  shard _ := some
    ⟨1, [(text "language_model.model.layers.1.mlp.experts.0.gate_proj.weight",
        ⟨text "BF16", [1, 1], 0, 2⟩),
      (text "language_model.model.layers.1.mlp.experts.0.up_proj.weight",
        ⟨text "BF16", [1, 1], 2, 4⟩),
      (text "language_model.model.layers.1.mlp.experts.0.down_proj.weight",
        ⟨text "BF16", [1, 1], 4, 6⟩)], [0, 11, 12, 13, 14, 15, 16]⟩
  dims := some (3, 1)

/-- One run behind a byte of an aborted one. -/
theorem append_any_order_oneExpert :
    ∃ out, Runs .bf16 oneExpert ⟨some [7], none⟩ [some [1]] out ∧
      ∃ bin hdr recs, out.bin = some bin ∧
        loadExisting dtypeBF16 out.idx = some (some hdr, recs) ∧ SoundStore bin recs ∧
        ∃ one, (∀ append, packExperts oneExpert append (some [1]) ⟨none, none⟩ = .done one) ∧
          ∀ key, contents dtypeBF16 out key = contents dtypeBF16 one key := by
  have hdone : (Tool.bf16.pack oneExpert true (some [1]) ⟨some [7], none⟩).done?.isSome := by
    decide +kernel
  have hruns := (@Runs.start .bf16 oneExpert ⟨some [7], none⟩).done (some [1])
    (done?_getD hdone ⟨none, none⟩)
  exact ⟨_, hruns, append_any_order .bf16 oneExpert rfl hruns (by decide)⟩

end Kvl.PackExperts
